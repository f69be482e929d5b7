import FleetUpgrade.Proofs.CopiedDocuments
import FleetUpgrade.Proofs.ReferenceCounts
import FleetUpgrade.Proofs.SnapshotStore
import FleetUpgrade.Proofs.UpgradeFootprints
import FleetUpgrade.Sample.Controller

/-! # Services that became applications

One transaction moves documents between three collections and inserts reference
counts into a fourth. That it is carried out rules out all that names with marks in
them could bring about: storage constraints that get the same id are refused, and
only their applications could share a count.
-/

namespace FleetUpgrade

open CollectionName (services applications storageConstraints refcounts)
open Document (StoredAnew)
open SnapshotStore (snapshot)

namespace Snapshot

variable {s after : Snapshot} {svc : Service}

def serviceList (s : Snapshot) : List Service :=
  (s.collections.collection services).entries.filterMap fun entry => Service.read? entry.1 entry.2

/-- How often the services of a model refer to a charm. -/
def charmTotal (s : Snapshot) (modelUuid charmUrl : String) : Int :=
  Service.total (s.serviceList.filter fun svc =>
    svc.modelUuid = modelUuid ∧ svc.charmUrl = charmUrl)

/-- Every count is a number of 64 bits. -/
def CountsFit (s : Snapshot) : Prop :=
  ∀ svc ∈ s.serviceList, ∀ n ∈ [svc.uses, s.charmTotal svc.modelUuid svc.charmUrl],
    -2 ^ 63 ≤ n ∧ n < 2 ^ 63

instance (s : Snapshot) : Decidable s.CountsFit :=
  inferInstanceAs (Decidable (∀ svc ∈ s.serviceList, _))

/-- The reference count of a model that stands under a key. -/
def Counts (s : Snapshot) (key modelUuid : String) (n : Int) : Prop :=
  ∃ count : Int64, count.toInt = n ∧ s.find? refcounts key =
    some ⟨[("_id", .string key), ("model-uuid", .string modelUuid), ("refcount", .int count)]⟩

/-- Everything that moving the services changes. -/
structure ServicesMoved (before after : Snapshot) : Prop where
  read : ∀ id d, before.find? services id = some d →
    ∃ svc ∈ before.serviceList, Service.read? id d = some svc
  services_gone : ∀ id, after.find? services id = none
  applications_new : ∀ id d, before.find? services id = some d →
    before.find? applications id = none ∧
      ∃ copy, after.find? applications id = some copy ∧ StoredAnew id ["ownertag"] none d copy
  applications_kept : ∀ id, before.find? services id = none →
    after.find? applications id = before.find? applications id
  constraints : ∀ svc ∈ before.serviceList,
    before.find? storageConstraints svc.constraintsId = none ∧
      after.find? storageConstraints svc.oldConstraintsId = none ∧
      ∃ old copy, before.find? storageConstraints svc.oldConstraintsId = some old ∧
        after.find? storageConstraints svc.constraintsId = some copy ∧
        StoredAnew svc.constraintsId [] none old copy
  constraints_kept : ∀ id, (∀ svc ∈ before.serviceList,
      id ≠ svc.oldConstraintsId ∧ id ≠ svc.constraintsId) →
    after.find? storageConstraints id = before.find? storageConstraints id
  counts : ∀ svc ∈ before.serviceList,
    (∀ key ∈ svc.keys, before.find? refcounts key = none) ∧
      after.Counts svc.applicationKey svc.modelUuid svc.uses ∧
      after.Counts svc.constraintsId svc.modelUuid svc.uses ∧
      after.Counts (Service.charmKey svc.modelUuid svc.charmUrl) svc.modelUuid
        (before.charmTotal svc.modelUuid svc.charmUrl)
  counts_kept : ∀ key, (∀ svc ∈ before.serviceList, key ∉ svc.keys) →
    after.find? refcounts key = before.find? refcounts key
  others : ∀ name, name ∉ [services, applications, storageConstraints, refcounts] →
    after.collections.get? name = before.collections.get? name
  pending : after.pending = before.pending

theorem mem_serviceList_iff : svc ∈ s.serviceList ↔
    ∃ id d, s.find? services id = some d ∧ Service.read? id d = some svc := by
  unfold serviceList
  rw [List.mem_filterMap]
  constructor
  · rintro ⟨⟨id, d⟩, hentry, hread⟩
    exact ⟨id, d, (Table.mem_entries_iff _ id d).1 hentry, hread⟩
  · rintro ⟨id, d, hd, hread⟩
    exact ⟨(id, d), (Table.mem_entries_iff _ id d).2 hd, hread⟩

theorem eq_of_id_eq {other : Service} (h : svc ∈ s.serviceList) (h' : other ∈ s.serviceList)
    (hid : svc.id = other.id) : svc = other := by
  obtain ⟨id, d, hd, hread⟩ := mem_serviceList_iff.1 h
  obtain ⟨id', d', hd', hread'⟩ := mem_serviceList_iff.1 h'
  rw [(Service.read?_spec hread).2, hid, ← (Service.read?_spec hread').2] at hd hread
  rw [hd'] at hd
  cases hd
  rw [hread'] at hread
  exact (Option.some.inj hread).symm

theorem serviceList_nodup (s : Snapshot) : s.serviceList.Nodup := by
  refine List.Pairwise.filterMap _ ?_ (s.collections.collection services).sorted
  rintro ⟨id, d⟩ ⟨id', d'⟩ hlt svc hread svc' hread' rfl
  rw [(Service.read?_spec hread).2, (Service.read?_spec hread').2] at hlt
  exact String.lt_irrefl _ hlt

/-! ## The moves -/

def applicationMove (id : String) (d : Document) : Move :=
  ⟨services, id, applications, id, d.withoutBookkeeping.remove "ownertag"⟩

def constraintsMove (s : Snapshot) (svc : Service) : Move :=
  ⟨storageConstraints, svc.oldConstraintsId, storageConstraints, svc.constraintsId,
    ((s.find? storageConstraints svc.oldConstraintsId).getD .empty).withoutBookkeeping⟩

/-- The moves for the document of a service: its own, and that of its storage constraints. -/
def movesOf (s : Snapshot) (entry : String × Document) : List Move :=
  match Service.read? entry.1 entry.2 with
  | some svc => [applicationMove entry.1 entry.2, s.constraintsMove svc]
  | none => []

def serviceMoves (s : Snapshot) : List Move :=
  (s.collections.collection services).entries.flatMap s.movesOf

theorem mem_movesOf_iff {entry : String × Document} {m : Move} : m ∈ s.movesOf entry ↔
    ∃ svc, Service.read? entry.1 entry.2 = some svc ∧
      (m = applicationMove entry.1 entry.2 ∨ m = s.constraintsMove svc) := by
  unfold movesOf
  cases Service.read? entry.1 entry.2 with
  | none => simp
  | some svc => simp

theorem mem_serviceMoves_iff {m : Move} : m ∈ s.serviceMoves ↔
    ∃ id d svc, s.find? services id = some d ∧ Service.read? id d = some svc ∧
      (m = applicationMove id d ∨ m = s.constraintsMove svc) := by
  unfold serviceMoves
  rw [List.mem_flatMap]
  constructor
  · rintro ⟨⟨id, d⟩, hentry, hm⟩
    obtain ⟨svc, hread, hshape⟩ := mem_movesOf_iff.1 hm
    exact ⟨id, d, svc, (Table.mem_entries_iff _ id d).1 hentry, hread, hshape⟩
  · rintro ⟨id, d, svc, hd, hread, hshape⟩
    exact ⟨(id, d), (Table.mem_entries_iff _ id d).2 hd, mem_movesOf_iff.2 ⟨svc, hread, hshape⟩⟩

theorem oldPlaces_nodup (s : Snapshot) : (s.serviceMoves.map Move.oldPlace).Nodup := by
  have hcollections : services ≠ storageConstraints := by decide
  unfold serviceMoves
  rw [List.map_flatMap, List.nodup_flatMap]
  constructor
  · intro entry _
    unfold movesOf
    split
    · simp [applicationMove, constraintsMove, Move.oldPlace, hcollections]
    · exact List.nodup_nil
  · refine (s.collections.collection services).sorted.imp ?_
    intro entry entry' hlt place hplace hplace'
    obtain ⟨m, hm, rfl⟩ := List.mem_map.1 hplace
    obtain ⟨m', hm', he⟩ := List.mem_map.1 hplace'
    obtain ⟨svc, hread, hshape⟩ := mem_movesOf_iff.1 hm
    obtain ⟨svc', hread', hshape'⟩ := mem_movesOf_iff.1 hm'
    obtain ⟨hscoped, hid⟩ := Service.read?_spec hread
    obtain ⟨hscoped', hid'⟩ := Service.read?_spec hread'
    have hne : entry.1 ≠ entry'.1 := fun hsame => String.lt_irrefl _ (hsame ▸ hlt)
    obtain ⟨hsource, hold⟩ := Prod.mk.inj he
    rcases hshape with rfl | rfl <;> rcases hshape' with rfl | rfl
    · exact hne hold.symm
    · exact hcollections hsource.symm
    · exact hcollections hsource
    · refine hne ?_
      rw [hid, hid', Service.id_eq_of_oldConstraintsId_eq hscoped hscoped' hold.symm]

end Snapshot

namespace ServiceMove

variable {s : Snapshot} {moves : List ServiceMove} {move : ServiceMove}

theorem ofDocument_entry {id : String} {d : Document} (hid : d.id = .ok id)
    (h : ofDocument s.view d = .ok move) :
    Service.read? id d = some move.service ∧
      (s.find? storageConstraints move.service.oldConstraintsId).isSome = true ∧
      move.transaction = (s.movesOf (id, d)).flatMap Move.operations := by
  obtain ⟨own, constraints, hown, hsplit, hcharm, hunits, hfetch, htransaction⟩ :=
    ofDocument_spec h
  rw [hid] at hown
  cases hown
  have hread : Service.read? id d = some move.service := by
    unfold Service.read?
    rw [hsplit, hcharm, hunits]
    rfl
  have hfound : s.find? storageConstraints move.service.oldConstraintsId = some constraints :=
    fetch_eq_ok_iff.1 hfetch
  refine ⟨hread, by rw [hfound]; rfl, ?_⟩
  have hbody : (s.constraintsMove move.service).body = constraints.withoutBookkeeping := by
    unfold Snapshot.constraintsMove
    rw [hfound]
    rfl
  unfold Snapshot.movesOf
  rw [htransaction, hread, ← hbody]
  rfl

theorem services_read (hk : s.Keyed)
    (h : s.view.readEach services (ofDocument s.view) = .ok moves) :
    moves.map service = s.serviceList ∧
      (moves.map transaction).flatten = s.serviceMoves.flatMap Move.operations ∧
      ∀ id d, s.find? services id = some d → ∃ svc, Service.read? id d = some svc ∧
        (s.find? storageConstraints svc.oldConstraintsId).isSome = true := by
  rw [Snapshot.readEach_eq] at h
  have hread := List.forall₂_map_left_iff.1 (List.forall₂_of_mapM_ok h)
  have hids : ∀ entry ∈ (s.collections.collection services).entries, entry.2.id = .ok entry.1 :=
    fun entry hentry => hk services entry.1 entry.2 ((Table.mem_entries_iff _ _ _).1 hentry)
  refine ⟨?_, ?_, fun id d hd => ?_⟩
  · unfold Snapshot.serviceList
    generalize (s.collections.collection services).entries = entries at hread hids ⊢
    clear h
    induction hread with
    | nil => rfl
    | cons hone _ ih =>
        obtain ⟨hentry, hentries⟩ := List.forall_mem_cons.1 hids
        rw [List.map_cons, ih hentries, List.filterMap_cons, (ofDocument_entry hentry hone).1]
  · unfold Snapshot.serviceMoves
    generalize (s.collections.collection services).entries = entries at hread hids ⊢
    clear h
    induction hread with
    | nil => rfl
    | cons hone _ ih =>
        obtain ⟨hentry, hentries⟩ := List.forall_mem_cons.1 hids
        rw [List.map_cons, List.flatten_cons, ih hentries, List.flatMap_cons, List.flatMap_append,
          (ofDocument_entry hentry hone).2.2]
  · obtain ⟨move, -, hone⟩ :=
      List.exists_of_mem_forall₂ hread ((Table.mem_entries_iff _ id d).2 hd)
    obtain ⟨hservice, hthere, -⟩ := ofDocument_entry (hk services id d hd) hone
    exact ⟨move.service, hservice, hthere⟩

end ServiceMove

/-! ## After the moves -/

namespace Snapshot

variable {s : Snapshot} {docs : Documents} {svc other : Service} {name id : String}

/-- The places of the moves, old or new: those of the services and those of the constraints. -/
theorem mem_places {place : Move → String × String} (h : (name, id) ∈ s.serviceMoves.map place) :
    (∃ own d, s.find? services own = some d ∧ (name, id) = place (applicationMove own d)) ∨
      ∃ svc ∈ s.serviceList, (name, id) = place (s.constraintsMove svc) := by
  obtain ⟨m, hm, he⟩ := List.mem_map.1 h
  obtain ⟨own, d, svc, hd, hread, rfl | rfl⟩ := mem_serviceMoves_iff.1 hm
  · exact Or.inl ⟨own, d, hd, he.symm⟩
  · exact Or.inr ⟨svc, mem_serviceList_iff.2 ⟨own, d, hd, hread⟩, he.symm⟩

theorem mem_oldPlaces (h : (name, id) ∈ s.serviceMoves.map Move.oldPlace) :
    (name = services ∧ (s.find? services id).isSome = true) ∨
      (name = storageConstraints ∧ ∃ svc ∈ s.serviceList, id = svc.oldConstraintsId) := by
  rcases mem_places h with ⟨own, d, hd, he⟩ | ⟨svc, hsvc, he⟩
  · obtain ⟨hname, rfl⟩ := Prod.mk.inj he
    exact Or.inl ⟨hname, Option.isSome_iff_exists.2 ⟨d, hd⟩⟩
  · obtain ⟨hname, hid⟩ := Prod.mk.inj he
    exact Or.inr ⟨hname, svc, hsvc, hid⟩

theorem mem_newPlaces (h : (name, id) ∈ s.serviceMoves.map Move.newPlace) :
    (name = applications ∧ (s.find? services id).isSome = true) ∨
      (name = storageConstraints ∧ ∃ svc ∈ s.serviceList, id = svc.constraintsId) := by
  rcases mem_places h with ⟨own, d, hd, he⟩ | ⟨svc, hsvc, he⟩
  · obtain ⟨hname, rfl⟩ := Prod.mk.inj he
    exact Or.inl ⟨hname, Option.isSome_iff_exists.2 ⟨d, hd⟩⟩
  · obtain ⟨hname, hid⟩ := Prod.mk.inj he
    exact Or.inr ⟨hname, svc, hsvc, hid⟩

theorem constraints_mem_oldPlaces
    (h : (storageConstraints, id) ∈ s.serviceMoves.map Move.oldPlace) :
    ∃ svc ∈ s.serviceList, id = svc.oldConstraintsId := by
  rcases mem_oldPlaces h with ⟨hname, -⟩ | ⟨-, hid⟩
  · exact absurd hname (by decide)
  · exact hid

theorem constraints_mem_newPlaces
    (h : (storageConstraints, id) ∈ s.serviceMoves.map Move.newPlace) :
    ∃ svc ∈ s.serviceList, id = svc.constraintsId := by
  rcases mem_newPlaces h with ⟨hname, -⟩ | ⟨-, hid⟩
  · exact absurd hname (by decide)
  · exact hid

theorem scoped_of_mem (h : svc ∈ s.serviceList) : svc.Scoped := by
  obtain ⟨id, d, -, hread⟩ := mem_serviceList_iff.1 h
  exact (Service.read?_spec hread).1

section

variable (h : Moved s.serviceMoves s.find? docs)

include h

theorem eq_of_constraintsId_eq (hsvc : svc ∈ s.serviceList) (hother : other ∈ s.serviceList)
    (he : svc.constraintsId = other.constraintsId) : svc = other := by
  obtain ⟨id, d, hd, hread⟩ := mem_serviceList_iff.1 hsvc
  obtain ⟨id', d', hd', hread'⟩ := mem_serviceList_iff.1 hother
  have hm := mem_serviceMoves_iff.2 ⟨id, d, svc, hd, hread, Or.inr rfl⟩
  have hm' := mem_serviceMoves_iff.2 ⟨id', d', other, hd', hread', Or.inr rfl⟩
  have hsame : s.constraintsMove svc = s.constraintsMove other :=
    List.inj_on_of_nodup_map h.distinct hm hm' (Prod.ext rfl he)
  exact eq_of_id_eq hsvc hother (Service.id_eq_of_oldConstraintsId_eq
    (scoped_of_mem hsvc) (scoped_of_mem hother) (congrArg Move.oldId hsame))

theorem services_after (hread : ∀ id d, s.find? services id = some d →
    ∃ svc, Service.read? id d = some svc) (id : String) : docs services id = none := by
  have hno : (services, id) ∉ s.serviceMoves.map Move.newPlace := fun hin =>
    absurd ((mem_newPlaces hin).imp And.left And.left) (by decide)
  cases hd : s.find? services id with
  | none =>
      rw [h.kept services id (fun hin => ?_) hno, hd]
      rcases mem_oldPlaces hin with ⟨-, hthere⟩ | ⟨hname, -⟩
      · rw [hd] at hthere
        cases hthere
      · exact absurd hname (by decide)
  | some d =>
      obtain ⟨svc, hsvc⟩ := hread id d hd
      exact h.gone _ (mem_serviceMoves_iff.2 ⟨id, d, svc, hd, hsvc, Or.inl rfl⟩) hno

theorem application_after {d : Document} (hd : s.find? services id = some d)
    (hread : Service.read? id d = some svc) :
    s.find? applications id = none ∧
      ∃ copy, docs applications id = some copy ∧ StoredAnew id ["ownertag"] none d copy := by
  have hm := mem_serviceMoves_iff.2 ⟨id, d, svc, hd, hread, Or.inl rfl⟩
  refine ⟨?_, _, h.arrived _ hm, Document.storedAnew_inserted d id ["ownertag"] none⟩
  rcases h.free _ hm with hnone | hcleared
  · exact hnone
  · have happlications : applications = services ∨ applications = storageConstraints :=
      (mem_oldPlaces hcleared).imp And.left And.left
    exact absurd happlications (by decide)

theorem applications_kept (hno : s.find? services id = none) :
    docs applications id = s.find? applications id := by
  refine h.kept applications id (fun hin => ?_) fun hin => ?_
  · exact absurd ((mem_oldPlaces hin).imp And.left And.left) (by decide)
  · rcases mem_newPlaces hin with ⟨-, hthere⟩ | ⟨hname, -⟩
    · rw [hno] at hthere
      cases hthere
    · exact absurd hname (by decide)

theorem constraints_after {old : Document} (hsvc : svc ∈ s.serviceList)
    (hold : s.find? storageConstraints svc.oldConstraintsId = some old) :
    s.find? storageConstraints svc.constraintsId = none ∧
      docs storageConstraints svc.oldConstraintsId = none ∧
      ∃ copy, docs storageConstraints svc.constraintsId = some copy ∧
        StoredAnew svc.constraintsId [] none old copy := by
  obtain ⟨id, d, hd, hread⟩ := mem_serviceList_iff.1 hsvc
  have hm := mem_serviceMoves_iff.2 ⟨id, d, svc, hd, hread, Or.inr rfl⟩
  have hapart : ∀ svc' ∈ s.serviceList, ∀ other ∈ s.serviceList,
      svc'.oldConstraintsId ≠ other.constraintsId := fun svc' hsvc' other hother =>
    Service.oldConstraintsId_ne_constraintsId (scoped_of_mem hsvc') (scoped_of_mem hother)
  refine ⟨?_, h.gone _ hm fun hin => ?_, _, h.arrived _ hm, ?_⟩
  · rcases h.free _ hm with hnone | hcleared
    · exact hnone
    · obtain ⟨other, hother, he⟩ := constraints_mem_oldPlaces hcleared
      exact absurd he.symm (hapart other hother svc hsvc)
  · obtain ⟨other, hother, he⟩ := constraints_mem_newPlaces hin
    exact hapart svc hsvc other hother he
  · have hbody : (s.constraintsMove svc).body = old.withoutBookkeeping := by
      unfold constraintsMove
      rw [hold]
      rfl
    unfold Move.document
    rw [hbody]
    exact Document.storedAnew_inserted old svc.constraintsId [] none

theorem constraints_kept (hno : ∀ svc ∈ s.serviceList,
      id ≠ svc.oldConstraintsId ∧ id ≠ svc.constraintsId) :
    docs storageConstraints id = s.find? storageConstraints id := by
  refine h.kept storageConstraints id (fun hin => ?_) fun hin => ?_
  · obtain ⟨svc, hsvc, he⟩ := constraints_mem_oldPlaces hin
    exact (hno svc hsvc).1 he
  · obtain ⟨svc, hsvc, he⟩ := constraints_mem_newPlaces hin
    exact (hno svc hsvc).2 he

theorem refcounts_before (key : String) : docs refcounts key = s.find? refcounts key :=
  h.kept refcounts key
    (fun hin => absurd ((mem_oldPlaces hin).imp And.left And.left) (by decide))
    fun hin => absurd ((mem_newPlaces hin).imp And.left And.left) (by decide)

/-- The keys of an application belong to no other service. -/
theorem referring_eq_singleton {key : String} (hsvc : svc ∈ s.serviceList)
    (hkey : ∀ other ∈ s.serviceList, key ∈ other.keys ↔ svc.constraintsId = other.constraintsId) :
    Service.referring key s.serviceList = [svc] := by
  refine List.perm_singleton.1 ((List.perm_ext_iff_of_nodup (s.serviceList_nodup.filter _)
    (List.nodup_singleton svc)).2 fun other => ?_)
  rw [List.mem_filter, List.mem_singleton, decide_eq_true_eq]
  constructor
  · rintro ⟨hother, hin⟩
    exact (eq_of_constraintsId_eq h hsvc hother ((hkey other hother).1 hin)).symm
  · rintro rfl
    exact ⟨hsvc, (hkey other hsvc).2 rfl⟩

end

theorem referring_charmKey (hsvc : svc ∈ s.serviceList) :
    Service.total (Service.referring (Service.charmKey svc.modelUuid svc.charmUrl) s.serviceList) =
      s.charmTotal svc.modelUuid svc.charmUrl := by
  refine congrArg Service.total (List.filter_congr fun other hother => ?_)
  exact decide_eq_decide.2
    (Service.charmKey_mem_keys_iff (scoped_of_mem hother) (scoped_of_mem hsvc).1)

end Snapshot

/-! ## After the counts -/

namespace ServiceMove

def countBody (key : String) (n : Int64) : Document :=
  .ofList [("model-uuid", .string (((DocId.split? key).map Prod.fst).getD "")),
    ("refcount", .int n)]

variable {s after : Snapshot} {docs docs' : Documents} {moves : List ServiceMove}
  {counts : Table Int64}

theorem countOperations_eq (counts : Table Int64) :
    (counts.entries.map fun entry => countOperation entry.1 entry.2) =
      (counts.entries.map fun entry => (entry.1, countBody entry.1 entry.2)).map fun entry =>
        .insert refcounts entry.1 entry.2 := by
  rw [List.map_map]
  rfl

theorem counts_inserted
    (h : Transaction.execute (counts.entries.map fun entry => countOperation entry.1 entry.2) docs =
      .ok docs') :
    (∀ key n, counts.get? key = some n → docs refcounts key = none ∧
        docs' refcounts key = some (.inserted key (countBody key n))) ∧
      (∀ key, counts.get? key = none → docs' refcounts key = docs refcounts key) ∧
      ∀ name, name ≠ refcounts → docs' name = docs name := by
  rw [countOperations_eq] at h
  obtain ⟨hentries, hothers⟩ := Transaction.inserted_of_execute h
  refine ⟨fun key n hn => ?_, fun key hnone => ?_, fun name hname => funext fun id => ?_⟩
  · exact hentries (key, countBody key n)
      (List.mem_map.2 ⟨(key, n), (counts.mem_entries_iff key n).2 hn, rfl⟩)
  · refine hothers refcounts key fun hin => ?_
    obtain ⟨entry, hentry, he⟩ := List.mem_map.1 hin
    obtain ⟨⟨key', n⟩, hmem, rfl⟩ := List.mem_map.1 hentry
    have hsome := (counts.mem_entries_iff key' n).1 hmem
    have hkey : key' = key := (Prod.mk.inj he).2
    rw [hkey, hnone] at hsome
    cases hsome
  · refine hothers name id fun hin => ?_
    obtain ⟨entry, -, he⟩ := List.mem_map.1 hin
    exact hname (Prod.mk.inj he).1.symm

theorem get?_counts_services (hservices : moves.map service = s.serviceList) (key : String) :
    (moves.foldl count Table.empty).get? key =
      if Service.referring key s.serviceList = [] then none
      else some (Int64.ofInt (Service.total (Service.referring key s.serviceList))) := by
  have hscoped : ∀ move ∈ moves, move.service.Scoped := fun move hmove =>
    Snapshot.scoped_of_mem (hservices ▸ List.mem_map_of_mem hmove)
  rw [get?_counts hscoped, hservices, Table.get?_empty, Option.getD_none, Int64.zero_add]

/-- The count of a service under one of its keys, if it is a number of 64 bits. -/
theorem counts_of_mem_keys {svc : Service} {key : String}
    (hservices : moves.map service = s.serviceList)
    (hinserted : ∀ key n, (moves.foldl count Table.empty).get? key = some n →
      docs refcounts key = none ∧
        after.find? refcounts key = some (.inserted key (countBody key n)))
    (hsvc : svc ∈ s.serviceList) (hkey : key ∈ svc.keys) :
    docs refcounts key = none ∧
      (-2 ^ 63 ≤ Service.total (Service.referring key s.serviceList) ∧
          Service.total (Service.referring key s.serviceList) < 2 ^ 63 →
        after.Counts key svc.modelUuid
          (Service.total (Service.referring key s.serviceList))) := by
  have hne : Service.referring key s.serviceList ≠ [] :=
    List.ne_nil_of_mem (List.mem_filter.2 ⟨hsvc, decide_eq_true hkey⟩)
  have hcount := get?_counts_services hservices key
  rw [if_neg hne] at hcount
  obtain ⟨hfree, hfound⟩ := hinserted key _ hcount
  refine ⟨hfree, fun hfits => ⟨_, Int64.toInt_ofInt_of_le hfits.1 hfits.2, ?_⟩⟩
  have hbody : countBody key (Int64.ofInt (Service.total (Service.referring key s.serviceList))) =
      ⟨[("model-uuid", .string svc.modelUuid),
        ("refcount", .int (Int64.ofInt (Service.total (Service.referring key s.serviceList))))]⟩ := by
    unfold countBody
    rw [Service.split?_of_mem_keys (Snapshot.scoped_of_mem hsvc) hkey]
    rfl
  rw [hfound, hbody]
  rfl

end ServiceMove

namespace Snapshot

/-- The transaction of the services half way: the documents were moved, and from there on only
counts are inserted. -/
structure MovedThenCounted (before : Snapshot) (between : Documents) (after : Snapshot)
    (counts : Table Int64) : Prop where
  read : ∀ id d, before.find? services id = some d → ∃ svc, Service.read? id d = some svc ∧
    (before.find? storageConstraints svc.oldConstraintsId).isSome = true
  moved : Moved before.serviceMoves before.find? between
  inserted : ∀ key n, counts.get? key = some n → between refcounts key = none ∧
    after.find? refcounts key = some (.inserted key (ServiceMove.countBody key n))
  uncounted : ∀ key, counts.get? key = none → after.find? refcounts key = between refcounts key
  elsewhere : ∀ name, name ≠ refcounts → ∀ id, after.find? name id = between name id

variable {before after : Snapshot} {between : Documents} {moves : List ServiceMove}
  {counts : Table Int64} {svc : Service} {key : String}

theorem serviceMoves_there (hread : ∀ id d, before.find? services id = some d →
      ∃ svc, Service.read? id d = some svc ∧
        (before.find? storageConstraints svc.oldConstraintsId).isSome = true) :
    ∀ m ∈ before.serviceMoves, (before.find? m.source m.oldId).isSome = true := by
  intro m hm
  obtain ⟨id, d, svc, hd, hsvc, rfl | rfl⟩ := mem_serviceMoves_iff.1 hm
  · change (before.find? services id).isSome = true
    rw [hd]
    rfl
  · obtain ⟨svc', hsvc', hconstraints⟩ := hread id d hd
    rw [hsvc'] at hsvc
    cases hsvc
    exact hconstraints

theorem exists_movedThenCounted (hk : before.Keyed)
    (hread : before.view.readEach services (ServiceMove.ofDocument before.view) = .ok moves)
    (h : (ServiceMove.plan moves).execute before.find? = .ok after.find?) :
    moves.map ServiceMove.service = before.serviceList ∧ ∃ between,
      before.MovedThenCounted between after (moves.foldl ServiceMove.count Table.empty) := by
  obtain ⟨hservices, htransactions, hall⟩ := ServiceMove.services_read hk hread
  unfold ServiceMove.plan at h
  rw [htransactions] at h
  obtain ⟨between, hmoves, hcounts⟩ := Transaction.execute_append_ok.1 h
  have hmoved :=
    Transaction.moved_of_execute before.oldPlaces_nodup (serviceMoves_there hall) hmoves
  obtain ⟨hinserted, hkept, hothers⟩ := ServiceMove.counts_inserted hcounts
  exact ⟨hservices, between, hall, hmoved, hinserted, hkept,
    fun name hname id => congrFun (hothers name hname) id⟩

namespace MovedThenCounted

theorem constraints (h : before.MovedThenCounted between after counts)
    (hsvc : svc ∈ before.serviceList) :
    before.find? storageConstraints svc.constraintsId = none ∧
      after.find? storageConstraints svc.oldConstraintsId = none ∧
      ∃ old copy, before.find? storageConstraints svc.oldConstraintsId = some old ∧
        after.find? storageConstraints svc.constraintsId = some copy ∧
        StoredAnew svc.constraintsId [] none old copy := by
  obtain ⟨id, d, hd, hread⟩ := mem_serviceList_iff.1 hsvc
  obtain ⟨svc', hsvc', hfound⟩ := h.read id d hd
  rw [hread] at hsvc'
  cases hsvc'
  obtain ⟨old, hold⟩ := Option.isSome_iff_exists.1 hfound
  obtain ⟨hfree, hgone, copy, hcopy, hanew⟩ := constraints_after h.moved hsvc hold
  rw [h.elsewhere storageConstraints (by decide), h.elsewhere storageConstraints (by decide)]
  exact ⟨hfree, hgone, old, copy, hold, hcopy, hanew⟩

section

variable (h : before.MovedThenCounted between after (moves.foldl ServiceMove.count Table.empty))
  (hservices : moves.map ServiceMove.service = before.serviceList)

include h hservices

theorem count_free (hsvc : svc ∈ before.serviceList) (hkey : key ∈ svc.keys) :
    before.find? refcounts key = none := by
  rw [← refcounts_before h.moved key]
  exact (ServiceMove.counts_of_mem_keys hservices h.inserted hsvc hkey).1

/-- The count under a key that belongs to one service. -/
theorem count_single (hsvc : svc ∈ before.serviceList)
    (hkey : ∀ other ∈ before.serviceList,
      key ∈ other.keys ↔ svc.constraintsId = other.constraintsId)
    (hfits : -2 ^ 63 ≤ svc.uses ∧ svc.uses < 2 ^ 63) :
    after.Counts key svc.modelUuid svc.uses := by
  have hcount :=
    (ServiceMove.counts_of_mem_keys hservices h.inserted hsvc ((hkey svc hsvc).2 rfl)).2
  rw [referring_eq_singleton h.moved hsvc hkey, Service.total_singleton] at hcount
  exact hcount hfits

theorem count_charm (hsvc : svc ∈ before.serviceList)
    (hfits : -2 ^ 63 ≤ before.charmTotal svc.modelUuid svc.charmUrl ∧
      before.charmTotal svc.modelUuid svc.charmUrl < 2 ^ 63) :
    after.Counts (Service.charmKey svc.modelUuid svc.charmUrl) svc.modelUuid
      (before.charmTotal svc.modelUuid svc.charmUrl) := by
  have hcount :=
    (ServiceMove.counts_of_mem_keys hservices h.inserted hsvc List.mem_cons_self).2
  rw [referring_charmKey hsvc] at hcount
  exact hcount hfits

theorem count_kept (hno : ∀ svc ∈ before.serviceList, key ∉ svc.keys) :
    after.find? refcounts key = before.find? refcounts key := by
  have hnone : Service.referring key before.serviceList = [] :=
    List.filter_eq_nil_iff.2 fun svc hsvc => by simpa using hno svc hsvc
  have hcount := ServiceMove.get?_counts_services hservices key
  rw [if_pos hnone] at hcount
  rw [h.uncounted key hcount, refcounts_before h.moved key]

end

end MovedThenCounted

theorem servicesMoved_of_apply (hk : before.Keyed) (hfit : before.CountsFit)
    (hread : before.view.readEach services (ServiceMove.ofDocument before.view) = .ok moves)
    (h : before.apply (ServiceMove.plan moves) = .ok after) : ServicesMoved before after := by
  obtain ⟨hexec, happlied⟩ := Snapshot.apply_ok h
  obtain ⟨hservices, between, hdone⟩ := exists_movedThenCounted hk hread hexec
  refine ⟨fun id d hd => ?_, fun id => ?_, fun id d hd => ?_, fun id hno => ?_,
    fun svc hsvc => hdone.constraints hsvc, fun id hno => ?_,
    fun svc hsvc => ⟨fun key hkey => hdone.count_free hservices hsvc hkey, ?_, ?_, ?_⟩,
    fun key hno => hdone.count_kept hservices hno, fun name hname => ?_, happlied.pending⟩
  · obtain ⟨svc, hsvc, -⟩ := hdone.read id d hd
    exact ⟨svc, mem_serviceList_iff.2 ⟨id, d, hd, hsvc⟩, hsvc⟩
  · rw [hdone.elsewhere services (by decide)]
    refine services_after hdone.moved (fun id d hd => ?_) id
    obtain ⟨svc, hsvc, -⟩ := hdone.read id d hd
    exact ⟨svc, hsvc⟩
  · rw [hdone.elsewhere applications (by decide)]
    obtain ⟨svc, hsvc, -⟩ := hdone.read id d hd
    exact application_after hdone.moved hd hsvc
  · rw [hdone.elsewhere applications (by decide)]
    exact applications_kept hdone.moved hno
  · rw [hdone.elsewhere storageConstraints (by decide)]
    exact constraints_kept hdone.moved hno
  · refine hdone.count_single hservices hsvc (fun other hother => ?_) (hfit svc hsvc _ (by simp))
    exact Service.applicationKey_mem_keys_iff (scoped_of_mem hsvc) (scoped_of_mem hother)
  · refine hdone.count_single hservices hsvc (fun other hother => ?_) (hfit svc hsvc _ (by simp))
    exact Service.constraintsId_mem_keys_iff (scoped_of_mem hsvc) (scoped_of_mem hother)
  · exact hdone.count_charm hservices hsvc (hfit svc hsvc _ (by simp))
  · refine happlied.untouched name fun op hop hcollection => hname ?_
    have hfrom : ∀ move ∈ moves, ∃ d, ServiceMove.ofDocument before.view d = .ok move := by
      intro move hmove
      obtain ⟨id, d, -, hone⟩ := readEach_ok_of_mem hread hmove
      exact ⟨d, hone⟩
    exact hcollection ▸ ServiceMove.collection_of_mem_plan hfrom hop

end Snapshot

open Snapshot (ServicesMoved)

/-- Moving the services loses no document and counts every reference, if the counts are numbers of
64 bits: whatever the names are, if there is a plan and the store takes the transaction. -/
theorem services_move_conserves {σ : Type} [DocumentStore σ] [SnapshotStore σ] {store : σ}
    {disk disk' : Disk} {vars vars' : Variables} {plan : StepPlan} (hk : (snapshot store).Keyed)
    (hfit : (snapshot store).CountsFit)
    (hplan : servicesToApplications.plan (DocumentStore.view store) disk vars = .ok (plan, vars'))
    (h : (DocumentStore.apply plan.transaction store disk').result = .ok ()) :
    plan.droppedCollections = [] ∧
      ServicesMoved (snapshot store)
        (snapshot (DocumentStore.apply plan.transaction store disk').store) := by
  rw [SnapshotStore.view_eq] at hplan
  obtain ⟨ops, hops, hpair⟩ := Except.map_eq_ok.1 hplan
  cases hpair
  obtain ⟨moves, hread, rfl⟩ := Except.map_eq_ok.1 hops
  exact ⟨rfl, Snapshot.servicesMoved_of_apply hk hfit hread (SnapshotStore.apply_ok h)⟩

/-- Two models whose services share charms, with marks and colons in the names. -/
def sharedCharms : MemoryStore :=
  let entries : List Sample.Entry :=
    [⟨"services", "m:a", [("charmurl", "cs:x#1"), ("unitcount", .int 2), ("ownertag", "u"),
        ("txn-revno", .int 7), ("life", .int 0)]⟩,
      ⟨"services", "m:a#b:c", [("unitcount", .int 0), ("charmurl", "cs:x#1")]⟩,
      ⟨"services", "n:a", [("charmurl", "cs:x#1"), ("unitcount", .int 5)]⟩,
      ⟨"applications", "m:old", [("life", .int 1)]⟩,
      ⟨"storageconstraints", "m:s#a", [("constraints", .document [])]⟩,
      ⟨"storageconstraints", "m:s#a#b:c", []⟩,
      ⟨"storageconstraints", "n:s#a", [("txn-queue", .list [])]⟩]
  ⟨entries.foldl Sample.Entry.addTo .empty, []⟩

theorem services_move_conserves_shared_charms :
    (snapshot sharedCharms).Keyed ∧ (snapshot sharedCharms).CountsFit ∧
      (snapshot sharedCharms).charmTotal "m" "cs:x#1" = 4 ∧ ∃ plan vars,
      servicesToApplications.plan (DocumentStore.view sharedCharms) .empty (.ofUuid "u") =
        .ok (plan, vars) ∧
      (DocumentStore.apply plan.transaction sharedCharms .empty).result = .ok () ∧
      plan.droppedCollections = [] ∧
      ServicesMoved (snapshot sharedCharms)
        (snapshot (DocumentStore.apply plan.transaction sharedCharms .empty).store) := by
  have hk : sharedCharms.snapshot.Keyed := by decide +kernel
  have hfit : sharedCharms.snapshot.CountsFit := by decide +kernel
  have htotal : sharedCharms.snapshot.charmTotal "m" "cs:x#1" = 4 := by decide +kernel
  obtain ⟨plan, vars, hplan, hdone⟩ :=
    servicesToApplications.exists_taken_plan sharedCharms (.ofUuid "u") (by decide +kernel)
  exact ⟨hk, hfit, htotal, plan, vars, hplan, hdone, services_move_conserves hk hfit hplan hdone⟩

end FleetUpgrade
