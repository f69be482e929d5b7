import FleetUpgrade.Proofs.Moves
import Mathlib.Algebra.Ring.Int.Defs
import Mathlib.Data.List.Nodup

/-! # Reference counts

A service refers to its charm once, and to itself and to its storage constraints,
each time together with its units. The keys of the counts are put together from
names that may hold the signs that stand between them, so keys of different
services may be the same text; charms apart, what is counted under one key is then
the sum over several services.
-/

namespace FleetUpgrade

open CollectionName (services refcounts)

structure Service where
  modelUuid : String
  application : String
  charmUrl : String
  unitCount : Int64
  deriving DecidableEq

namespace Service

def id (svc : Service) : String := svc.modelUuid ++ ":" ++ svc.application

def oldConstraintsId (svc : Service) : String := svc.modelUuid ++ ":s#" ++ svc.application

def constraintsId (svc : Service) : String :=
  svc.modelUuid ++ ":asc#" ++ svc.application ++ "#" ++ svc.charmUrl

def charmKey (modelUuid charmUrl : String) : String := modelUuid ++ ":c#" ++ charmUrl

def applicationKey (svc : Service) : String :=
  svc.modelUuid ++ ":a#" ++ svc.application ++ "#" ++ svc.charmUrl

def keys (svc : Service) : List String :=
  [charmKey svc.modelUuid svc.charmUrl, svc.applicationKey, svc.constraintsId]

/-- The service and its units. -/
def uses (svc : Service) : Int := 1 + svc.unitCount.toInt

def read? (id : String) (d : Document) : Option Service :=
  match DocId.split? id, d.getString "charmurl", d.getInt "unitcount" with
  | some (modelUuid, application), .ok charmUrl, .ok unitCount =>
      some ⟨modelUuid, application, charmUrl, unitCount⟩
  | _, _, _ => none

/-- The model of a service has a name, without colons. -/
def Scoped (svc : Service) : Prop := ':' ∉ svc.modelUuid.toList ∧ svc.modelUuid ≠ ""

variable {svc other : Service} {modelUuid charmUrl : String}

theorem read?_spec {id : String} {d : Document} (h : read? id d = some svc) :
    svc.Scoped ∧ id = svc.id := by
  unfold read? at h
  split at h
  · next hsplit _ _ =>
      cases h
      obtain ⟨hscope, hne, -, hid⟩ := DocId.split?_spec hsplit
      exact ⟨⟨hscope, hne⟩, hid⟩
  · cases h

/-! ## Keys -/

theorem oldConstraintsId_eq (svc : Service) :
    svc.oldConstraintsId = svc.modelUuid ++ ":" ++ ("s#" ++ svc.application) := by
  simp [oldConstraintsId, ← String.toList_inj]

theorem constraintsId_eq (svc : Service) : svc.constraintsId =
    svc.modelUuid ++ ":" ++ ("asc#" ++ svc.application ++ "#" ++ svc.charmUrl) := by
  simp [constraintsId, ← String.toList_inj]

theorem applicationKey_eq (svc : Service) : svc.applicationKey =
    svc.modelUuid ++ ":" ++ ("a#" ++ svc.application ++ "#" ++ svc.charmUrl) := by
  simp [applicationKey, ← String.toList_inj]

theorem charmKey_eq (modelUuid charmUrl : String) :
    charmKey modelUuid charmUrl = modelUuid ++ ":" ++ ("c#" ++ charmUrl) := by
  simp [charmKey, ← String.toList_inj]

/-- The old ids of storage constraints run together no more than those of services. -/
theorem id_eq_of_oldConstraintsId_eq (h : svc.Scoped) (h' : other.Scoped)
    (he : svc.oldConstraintsId = other.oldConstraintsId) : svc.id = other.id := by
  rw [oldConstraintsId_eq, oldConstraintsId_eq, DocId.join_inj h.1 h'.1] at he
  have happlication : svc.application = other.application := by
    simpa [← String.toList_inj] using he.2
  simp only [id, he.1, happlication]

theorem oldConstraintsId_ne_constraintsId (h : svc.Scoped) (h' : other.Scoped) :
    svc.oldConstraintsId ≠ other.constraintsId := by
  rw [oldConstraintsId_eq, constraintsId_eq, ne_eq, DocId.join_inj h.1 h'.1]
  simp [← String.toList_inj]

theorem charmKey_mem_keys_iff (h : svc.Scoped) (hscope : ':' ∉ modelUuid.toList) :
    charmKey modelUuid charmUrl ∈ svc.keys ↔
      svc.modelUuid = modelUuid ∧ svc.charmUrl = charmUrl := by
  simp only [keys, List.mem_cons, List.not_mem_nil, or_false, charmKey_eq, applicationKey_eq,
    constraintsId_eq, DocId.join_inj hscope h.1]
  simp [← String.toList_inj, eq_comm]

/-- Applications share a count of their own only if their storage constraints share an id. -/
theorem applicationKey_mem_keys_iff (h : svc.Scoped) (h' : other.Scoped) :
    svc.applicationKey ∈ other.keys ↔ svc.constraintsId = other.constraintsId := by
  simp only [keys, List.mem_cons, List.not_mem_nil, or_false, charmKey_eq, applicationKey_eq,
    constraintsId_eq, DocId.join_inj h.1 h'.1]
  simp [← String.toList_inj]

theorem constraintsId_mem_keys_iff (h : svc.Scoped) (h' : other.Scoped) :
    svc.constraintsId ∈ other.keys ↔ svc.constraintsId = other.constraintsId := by
  simp only [keys, List.mem_cons, List.not_mem_nil, or_false, charmKey_eq, applicationKey_eq,
    constraintsId_eq, DocId.join_inj h.1 h'.1]
  simp [← String.toList_inj]

theorem keys_nodup (h : svc.Scoped) : svc.keys.Nodup := by
  simp only [keys, List.nodup_cons, List.mem_cons, List.not_mem_nil, or_false, charmKey_eq,
    applicationKey_eq, constraintsId_eq, DocId.join_inj h.1 h.1]
  simp [← String.toList_inj]

theorem split?_of_mem_keys (h : svc.Scoped) {key : String} (hkey : key ∈ svc.keys) :
    (DocId.split? key).map Prod.fst = some svc.modelUuid := by
  have hsplit : ∀ localPart, localPart ≠ "" →
      (DocId.split? (svc.modelUuid ++ ":" ++ localPart)).map Prod.fst = some svc.modelUuid :=
    fun localPart hne => by rw [DocId.split?_join h.1 h.2 hne, Option.map_some]
  simp only [keys, List.mem_cons, List.not_mem_nil, or_false] at hkey
  rcases hkey with rfl | rfl | rfl
  · rw [charmKey_eq]
    exact hsplit _ (by simp [← String.toList_inj])
  · rw [applicationKey_eq]
    exact hsplit _ (by simp [← String.toList_inj])
  · rw [constraintsId_eq]
    exact hsplit _ (by simp [← String.toList_inj])

end Service

/-! ## Counts -/

def Service.total (services : List Service) : Int := (services.map Service.uses).sum

theorem Service.total_cons (svc : Service) (services : List Service) :
    total (svc :: services) = svc.uses + total services := List.sum_cons

theorem Service.total_singleton (svc : Service) : total [svc] = svc.uses := by
  rw [total_cons]
  exact Int.add_zero _

def Service.referring (key : String) (services : List Service) : List Service :=
  services.filter fun svc => key ∈ svc.keys

namespace ServiceMove

def service (move : ServiceMove) : Service :=
  ⟨move.modelUuid, move.application, move.charmUrl, move.unitCount⟩

theorem references_eq (move : ServiceMove) : move.references = move.service.keys := rfl

end ServiceMove

/-- Values that are put under different names are put there independently. -/
theorem Table.get?_foldl_insert {α : Type} {names : List String} (h : names.Nodup)
    (f : Option α → α) (t : Table α) (name : String) :
    (names.foldl (fun t name => t.insert name (f (t.get? name))) t).get? name =
      if name ∈ names then some (f (t.get? name)) else t.get? name := by
  induction names generalizing t with
  | nil => rfl
  | cons first names ih =>
      obtain ⟨hfirst, hnames⟩ := List.nodup_cons.1 h
      rw [List.foldl_cons, ih hnames]
      by_cases he : first = name
      · subst he
        simp [hfirst, get?_insert_self]
      · rw [get?_insert_of_ne _ _ he]
        simp [Ne.symm he]

namespace ServiceMove

theorem get?_count {move : ServiceMove} (h : move.service.Scoped) (counts : Table Int64)
    (key : String) : (count counts move).get? key =
      if key ∈ move.service.keys then
        some ((counts.get? key).getD 0 + Int64.ofInt move.service.uses)
      else counts.get? key := by
  have hone : Int64.ofInt move.service.uses = 1 + move.unitCount := by
    rw [Service.uses, Int64.ofInt_add, service, Int64.ofInt_toInt]
    rfl
  unfold count
  rw [references_eq, hone]
  exact Table.get?_foldl_insert (Service.keys_nodup h) (fun old => old.getD 0 + (1 + move.unitCount))
    counts key

/-- Under every key stands the sum over the services that refer to it, if there are any. -/
theorem get?_counts {moves : List ServiceMove} (h : ∀ move ∈ moves, move.service.Scoped)
    (counts : Table Int64) (key : String) : (moves.foldl count counts).get? key =
      if Service.referring key (moves.map service) = [] then counts.get? key
      else some ((counts.get? key).getD 0 +
        Int64.ofInt (Service.total (Service.referring key (moves.map service)))) := by
  induction moves generalizing counts with
  | nil => rfl
  | cons move moves ih =>
      obtain ⟨hmove, hmoves⟩ := List.forall_mem_cons.1 h
      rw [List.foldl_cons, ih hmoves, get?_count hmove, List.map_cons]
      unfold Service.referring
      rw [List.filter_cons]
      by_cases hkey : key ∈ move.service.keys
      · simp only [hkey, decide_true, if_true, List.cons_ne_nil, if_false]
        split
        · next hnone => simp [hnone, Service.total]
        · rw [Service.total_cons, Int64.ofInt_add, ← Int64.add_assoc]
          rfl
      · simp only [hkey, decide_false, Bool.false_eq_true, if_false]

end ServiceMove

/-! ## Counts that are inserted -/

/-- Documents that are inserted stand where nothing was, and all others are as they were. -/
theorem Transaction.inserted_of_execute {name : String} {entries : List (String × Document)}
    {docs docs' : Documents}
    (h : execute (entries.map fun entry => .insert name entry.1 entry.2) docs = .ok docs') :
    (∀ entry ∈ entries, docs name entry.1 = none ∧
        docs' name entry.1 = some (.inserted entry.1 entry.2)) ∧
      ∀ other id, (other, id) ∉ entries.map (fun entry => (name, entry.1)) →
        docs' other id = docs other id := by
  induction entries generalizing docs with
  | nil =>
      cases h
      exact ⟨fun _ hentry => absurd hentry List.not_mem_nil, fun _ _ _ => rfl⟩
  | cons first entries ih =>
      obtain ⟨between, hfirst, hrest⟩ := execute_cons_ok.1 h
      obtain ⟨hfree, rfl⟩ := Operation.execute_insert_ok_iff.1 hfirst
      obtain ⟨hentries, hothers⟩ := ih hrest
      -- no later entry has the id that is in use now
      have hne : ∀ entry ∈ entries, (name, entry.1) ≠ (name, first.1) := by
        intro entry hentry he
        have hlater := (hentries entry hentry).1
        rw [(Prod.mk.inj he).2, Documents.place_self] at hlater
        cases hlater
      refine ⟨List.forall_mem_cons.2 ⟨⟨hfree, ?_⟩, fun entry hentry => ?_⟩, fun other id hno => ?_⟩
      · rw [hothers name first.1 fun hin => ?_, Documents.place_self]
        obtain ⟨entry, hentry, he⟩ := List.mem_map.1 hin
        exact hne entry hentry he
      · rw [← Documents.place_of_ne docs _ (hne entry hentry)]
        exact hentries entry hentry
      · rw [List.map_cons, List.mem_cons, not_or] at hno
        rw [hothers other id hno.2, Documents.place_of_ne _ _ hno.1]

end FleetUpgrade
