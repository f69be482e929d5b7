import FleetUpgrade.Proofs.CollectionPlans
import FleetUpgrade.Proofs.ContentEffects
import FleetUpgrade.Proofs.FieldActions
import Mathlib.Data.List.Triplewise

/-! # One update for a list of actions

The actions of a table are put together into one update: all values are taken
from the stored document, all sets come before all clears, and a path that is
set again keeps its first place. Carrying that update out is performing the
actions one after another, as long as the actions do not reach into each other:
none takes or sets what an earlier one cleared, none takes what an earlier one
set, and between two settings of a path nothing that overlaps it is set.

The proof takes the update apart from its end. A set goes behind all clears, since
it is apart from them, and a path that is set again goes behind the sets after
its first place. What is left is the update of the actions before.
-/

namespace FleetUpgrade

/-! ## Taking an update apart -/

namespace Update

variable {d d' : Document} {p : String} {value : Value}

/-- A place that is there may be set after others that are apart from it. -/
theorem foldlM_setOne_comm {fields : Fields} {between : Document}
    (hapart : ∀ q ∈ fields.names, Path.Apart p q) (hthere : (d.getPath p).isSome = true)
    (hfirst : setOne d (p, value) = .ok between) (h : fields.foldlM setOne between = .ok d') :
    ∃ before, fields.foldlM setOne d = .ok before ∧ setOne before (p, value) = .ok d' := by
  induction fields generalizing d between with
  | nil =>
      cases h
      exact ⟨d, rfl, hfirst⟩
  | cons field rest ih =>
      obtain ⟨q, other⟩ := field
      obtain ⟨hq, hrest⟩ := List.forall_mem_cons.1 hapart
      rw [List.foldlM_cons, Except.bind_eq_ok] at h
      obtain ⟨next, hsecond, hlater⟩ := h
      obtain ⟨hid, hfirst⟩ := setOne_ok_iff.1 hfirst
      obtain ⟨hqid, hsecond⟩ := setOne_ok_iff.1 hsecond
      obtain ⟨w, hw, hlast⟩ := Document.written?_comm hq hthere hfirst hsecond
      have hstill : (w.getPath p).isSome = true := by
        have hkept : w.getPath p = d.getPath p :=
          (Document.changed_of_written? hw).getAt_eq hq.symm
        rwa [hkept]
      obtain ⟨before, hbefore, hset⟩ := ih hrest hstill (setOne_ok_iff.2 ⟨hid, hlast⟩) hlater
      refine ⟨before, ?_, hset⟩
      rw [List.foldlM_cons, setOne_ok_iff.2 ⟨hqid, hw⟩]
      exact hbefore

theorem foldlM_setOne_put {fields : Fields}
    (hagain : fields.names.Pairwise fun x y => x = p → Path.Apart p y)
    (h : (Fields.put p value fields).foldlM setOne d = .ok d') :
    ∃ before, fields.foldlM setOne d = .ok before ∧ setOne before (p, value) = .ok d' := by
  induction fields generalizing d with
  | nil =>
      simp only [Fields.put, List.foldlM_cons, List.foldlM_nil, bind_pure] at h
      exact ⟨d, rfl, h⟩
  | cons field rest ih =>
      obtain ⟨key, old⟩ := field
      obtain ⟨hhead, hrest⟩ := List.pairwise_cons.1 hagain
      by_cases hkey : key = p
      · subst hkey
        simp only [Fields.put, if_true, List.foldlM_cons, Except.bind_eq_ok] at h
        obtain ⟨between, hfirst, hlater⟩ := h
        obtain ⟨hid, hwritten⟩ := setOne_ok_iff.1 hfirst
        obtain ⟨start, hstart, hover⟩ := Document.written?_twice old hwritten
        have hthere : (start.getPath key).isSome = true := by
          rw [Document.getPath_setPath (Document.written?_eq_some_iff.1 hstart)]
          rfl
        obtain ⟨before, hbefore, hset⟩ := foldlM_setOne_comm (fun q hq => hhead q hq rfl) hthere
          (setOne_ok_iff.2 ⟨hid, hover⟩) hlater
        refine ⟨before, ?_, hset⟩
        rw [List.foldlM_cons, setOne_ok_iff.2 ⟨hid, hstart⟩]
        exact hbefore
      · simp only [Fields.put, if_neg hkey, List.foldlM_cons, Except.bind_eq_ok] at h
        obtain ⟨between, hfirst, hlater⟩ := h
        obtain ⟨before, hbefore, hset⟩ := ih hrest hlater
        refine ⟨before, ?_, hset⟩
        rw [List.foldlM_cons, hfirst]
        exact hbefore

/-- A set before clears of places apart from it may come after them. -/
theorem foldlM_clearOne_comm {paths : List String} {between : Document}
    (hapart : ∀ q ∈ paths, Path.Apart p q) (hset : setOne d (p, value) = .ok between)
    (h : paths.foldlM clearOne between = .ok d') :
    ∃ before, paths.foldlM clearOne d = .ok before ∧ setOne before (p, value) = .ok d' := by
  induction paths generalizing d between with
  | nil =>
      cases h
      exact ⟨d, rfl, hset⟩
  | cons q rest ih =>
      obtain ⟨hq, hrest⟩ := List.forall_mem_cons.1 hapart
      rw [List.foldlM_cons, Except.bind_eq_ok] at h
      obtain ⟨next, hclear, hlater⟩ := h
      obtain ⟨hqid, rfl⟩ := clearOne_ok_iff.1 hclear
      obtain ⟨hid, hwritten⟩ := setOne_ok_iff.1 hset
      obtain ⟨before, hbefore, hlast⟩ :=
        ih hrest (setOne_ok_iff.2 ⟨hid, Document.written?_unsetPath hq hwritten⟩) hlater
      refine ⟨before, ?_, hlast⟩
      rw [List.foldlM_cons, clearOne_ok_iff.2 ⟨hqid, rfl⟩]
      exact hbefore

theorem execute_setting_last {u : Update} (hcleared : ∀ q ∈ u.unset, Path.Apart p q)
    (hagain : u.set.names.Pairwise fun x y => x = p → Path.Apart p y)
    (h : (u.setting p value).execute d = .ok d') :
    ∃ before, u.execute d = .ok before ∧ setOne before (p, value) = .ok d' := by
  obtain ⟨between, hsets, hclears⟩ := Except.bind_eq_ok.1 h
  obtain ⟨start, hstart, hset⟩ := foldlM_setOne_put hagain hsets
  obtain ⟨before, hbefore, hlast⟩ := foldlM_clearOne_comm hcleared hset hclears
  exact ⟨before, Except.bind_eq_ok.2 ⟨start, hstart, hbefore⟩, hlast⟩

/-- Between two settings of one path, only places apart from it are set. -/
def SetsApart (paths : List String) : Prop :=
  paths.Triplewise fun p q again => p = again → q = p ∨ Path.Apart q p

theorem names_setting (u : Update) (p : String) (value : Value) :
    (u.setting p value).set.names =
      if p ∈ u.set.names then u.set.names else u.set.names ++ [p] :=
  Fields.names_put p value u.set.fields

theorem names_setting_sublist {u : Update} {sets : List String} (p : String) (value : Value)
    (h : u.set.names.Sublist sets) : (u.setting p value).set.names.Sublist (sets ++ [p]) := by
  rw [names_setting]
  split
  · exact h.trans (List.sublist_append_left sets [p])
  · exact h.append_right [p]

theorem names_foldl_insert (fields : Fields) {u : Update} {sets : List String}
    (h : u.set.names.Sublist sets) (honce : u.set.names.Nodup) :
    (fields.foldl (fun set entry => set.insert entry.1 entry.2) u.set).names.Sublist
        (sets ++ fields.names) ∧
      (fields.foldl (fun set entry => set.insert entry.1 entry.2) u.set).names.Nodup := by
  induction fields generalizing u sets with
  | nil => exact ⟨h.trans (List.sublist_append_left sets _), honce⟩
  | cons field fields ih =>
      have hmore := ih (u := u.setting field.1 field.2) (names_setting_sublist _ _ h)
        (Fields.nodup_put honce)
      rw [List.append_assoc] at hmore
      exact hmore

theorem execute_foldl_insert {fields : Fields} {u : Update} {sets : List String}
    (hsets : u.set.names.Sublist sets) (honce : u.set.names.Nodup)
    (hcleared : ∀ q ∈ u.unset, ∀ p ∈ fields.names, Path.Apart q p)
    (hagain : SetsApart (sets ++ fields.names))
    (h : (Update.mk (fields.foldl (fun set entry => set.insert entry.1 entry.2) u.set)
      u.unset).execute d = .ok d') :
    ∃ before, u.execute d = .ok before ∧ fields.foldlM setOne before = .ok d' := by
  induction fields generalizing u sets with
  | nil => exact ⟨d', h, rfl⟩
  | cons field fields ih =>
      obtain ⟨p, value⟩ := field
      have hnames : sets ++ Fields.names ((p, value) :: fields) =
          (sets ++ [p]) ++ Fields.names fields := by
        simp [Fields.names]
      obtain ⟨between, hbetween, hrest⟩ := ih (u := u.setting p value)
        (names_setting_sublist p value hsets) (Fields.nodup_put honce)
        (fun q hq other hother => hcleared q hq other (List.mem_cons_of_mem p hother))
        (hnames ▸ hagain) h
      have hapart : u.set.names.Pairwise fun x y => x = p → Path.Apart p y := by
        have hpairs := (List.triplewise_append.1 hagain).2.2.2 p List.mem_cons_self
        refine (honce.and (hpairs.sublist hsets)).imp ?_
        rintro x y ⟨hne, hxy⟩ rfl
        exact ((hxy rfl).resolve_left (Ne.symm hne)).symm
      obtain ⟨before, hbefore, hset⟩ := execute_setting_last
        (fun q hq => (hcleared q hq p List.mem_cons_self).symm) hapart hbetween
      refine ⟨before, hbefore, ?_⟩
      rw [List.foldlM_cons, hset]
      exact hrest

/-- An update that is carried on with another one is carried out before it, if what the other one
sets was not cleared before, and nothing was set over a path since it was set first. -/
theorem execute_also {u more : Update} {sets : List String}
    (hsets : u.set.names.Sublist sets) (honce : u.set.names.Nodup)
    (hcleared : ∀ q ∈ u.unset, ∀ p ∈ more.set.names, Path.Apart q p)
    (hagain : SetsApart (sets ++ more.set.names)) (h : (u.also more).execute d = .ok d') :
    ∃ before, u.execute d = .ok before ∧ more.execute before = .ok d' := by
  obtain ⟨written, hset, hclear⟩ := Except.bind_eq_ok.1 h
  simp only [also, List.foldlM_append, Except.bind_eq_ok] at hclear
  obtain ⟨between, hclear, hlast⟩ := hclear
  obtain ⟨before, hbefore, hwritten⟩ := execute_foldl_insert hsets honce hcleared hagain
    (Except.bind_eq_ok.2 ⟨written, hset, hclear⟩)
  exact ⟨before, hbefore, Except.bind_eq_ok.2 ⟨between, hwritten, hlast⟩⟩

end Update

/-! ## Actions that do not reach into each other -/

instance List.decidableTriplewise {α : Type} (p : α → α → α → Prop)
    [∀ a b c, Decidable (p a b c)] : (l : List α) → Decidable (l.Triplewise p)
  | [] => .isTrue .nil
  | a :: l =>
      have := decidableTriplewise p l
      decidable_of_iff (l.Pairwise (p a) ∧ l.Triplewise p) List.triplewise_cons.symm

instance (paths : List String) : Decidable (Update.SetsApart paths) :=
  List.decidableTriplewise _ paths

namespace FieldAction

def editOn (action : FieldAction) (d : Document) : Update :=
  action.edit ((action.taken? d).getD [])

def takesFrom (action : FieldAction) (d : Document) : List String :=
  action.takes ((action.taken? d).getD [])

/-- Actions of which, on a document, none reaches into what an earlier one did. -/
structure Orderly (d : Document) (actions : List FieldAction) : Prop where
  /-- none takes a value from a place that overlaps one that an earlier action set or cleared -/
  taken : actions.Pairwise fun a b =>
    ∀ p ∈ (a.editOn d).set.names ++ (a.editOn d).unset, ∀ q ∈ b.takesFrom d, Path.Apart p q
  /-- none sets a place that overlaps one that an earlier action cleared -/
  cleared : actions.Pairwise fun a b =>
    ∀ p ∈ (a.editOn d).unset, ∀ q ∈ (b.editOn d).set.names, Path.Apart p q
  /-- between two settings of one path, only places apart from it are set -/
  again : Update.SetsApart (actions.flatMap fun a => (a.editOn d).set.names)

instance (d : Document) (actions : List FieldAction) : Decidable (Orderly d actions) :=
  decidable_of_iff (_ ∧ _ ∧ _) ⟨fun h => ⟨h.1, h.2.1, h.2.2⟩, fun h => ⟨h.taken, h.cleared, h.again⟩⟩

variable {action : FieldAction} {d d' : Document} {u u' : Update} {values : List Value}

theorem taken?_execute (h : u.execute d = .ok d') (htaken : action.taken? d = some values)
    (hapart : ∀ p ∈ u.set.names ++ u.unset, ∀ q ∈ action.takes values, Path.Apart p q) :
    action.taken? d' = some values := by
  obtain ⟨between, hsets, hclears⟩ := Except.bind_eq_ok.1 h
  have hbetween : action.taken? between = some values := by
    refine List.foldlM_ok_induction_mem (P := fun now => action.taken? now = some values) hsets
      htaken fun entry hentry before after hbefore hset => ?_
    have hname : entry.1 ∈ u.set.names := List.mem_map_of_mem hentry
    exact taken?_changed (Document.changed_of_written? (Update.setOne_ok_iff.1 hset).2) hbefore
      (hapart entry.1 (List.mem_append_left _ hname))
  refine List.foldlM_ok_induction_mem (P := fun now => action.taken? now = some values) hclears
    hbetween fun path hpath before after hbefore hclear => ?_
  obtain ⟨-, rfl⟩ := Update.clearOne_ok_iff.1 hclear
  exact taken?_changed (Document.changed_unsetPath before path) hbefore
    (hapart path (List.mem_append_right _ hpath))

/-- The update that was made of some actions holds their sets and their clears. -/
structure Gathers (d : Document) (actions : List FieldAction) (u : Update) : Prop where
  sets : u.set.names.Sublist (actions.flatMap fun a => (a.editOn d).set.names)
  once : u.set.names.Nodup
  clears : u.unset = actions.flatMap fun a => (a.editOn d).unset

theorem Gathers.nil (d : Document) : Gathers d [] .empty :=
  ⟨List.Sublist.refl [], List.nodup_nil, rfl⟩

theorem Gathers.extend {actions : List FieldAction} (hgathers : Gathers d actions u)
    (htaken : action.taken? d = some values) :
    Gathers d (actions ++ [action]) (u.also (action.edit values)) := by
  have hedit : action.editOn d = action.edit values := by rw [editOn, htaken, Option.getD_some]
  have hnames := Update.names_foldl_insert (action.edit values).set.fields hgathers.sets
    hgathers.once
  refine ⟨?_, hnames.2, ?_⟩
  · rw [List.flatMap_append, List.flatMap_singleton, hedit]
    exact hnames.1
  · rw [List.flatMap_append, List.flatMap_singleton, hedit, ← hgathers.clears]
    rfl

theorem Gathers.exists_of_mem {actions : List FieldAction} {p : String}
    (hgathers : Gathers d actions u) (hp : p ∈ u.set.names ++ u.unset) :
    ∃ a ∈ actions, p ∈ (a.editOn d).set.names ++ (a.editOn d).unset := by
  rcases List.mem_append.1 hp with hset | hclear
  · obtain ⟨a, ha, hset⟩ := List.mem_flatMap.1 (hgathers.sets.subset hset)
    exact ⟨a, ha, List.mem_append_left _ hset⟩
  · rw [hgathers.clears] at hclear
    obtain ⟨a, ha, hclear⟩ := List.mem_flatMap.1 hclear
    exact ⟨a, ha, List.mem_append_right _ hclear⟩

/-- The update that is made of actions, carried out, performs the actions in order. -/
theorem performAll_of_execute {before actions : List FieldAction} (hgathers : Gathers d before u)
    (horderly : Orderly d (before ++ actions)) (hu : FieldEdit.extendAll d actions u = .ok u')
    (h : u'.execute d = .ok d') :
    ∃ start, u.execute d = .ok start ∧ performAll start actions = some d' := by
  induction actions generalizing before u with
  | nil =>
      cases hu
      exact ⟨d', h, rfl⟩
  | cons action actions ih =>
      simp only [FieldEdit.extendAll] at hu
      split at hu
      · cases hu
      · next u₁ hextend =>
          obtain ⟨values, htaken, rfl⟩ := extend_ok.1 hextend
          have hsplit : before ++ action :: actions = (before ++ [action]) ++ actions := by simp
          obtain ⟨next, hnext, hperform⟩ := ih (hgathers.extend htaken) (hsplit ▸ horderly) hu
          have hedit : action.editOn d = action.edit values := by
            rw [editOn, htaken, Option.getD_some]
          have htakes : action.takesFrom d = action.takes values := by
            rw [takesFrom, htaken, Option.getD_some]
          have hcleared := (List.pairwise_append.1 horderly.cleared).2.2
          have hreached := (List.pairwise_append.1 horderly.taken).2.2
          have hagain : Update.SetsApart ((before.flatMap fun a => (a.editOn d).set.names) ++
              (action.edit values).set.names) := by
            have hall := horderly.again
            rw [List.flatMap_append, List.flatMap_cons, hedit, ← List.append_assoc] at hall
            exact (List.triplewise_append.1 hall).1
          obtain ⟨start, hstart, hone⟩ := Update.execute_also hgathers.sets hgathers.once
            (fun q hq p hp => by
              rw [hgathers.clears] at hq
              obtain ⟨earlier, hearlier, hq⟩ := List.mem_flatMap.1 hq
              exact hcleared earlier hearlier action List.mem_cons_self q hq p (hedit ▸ hp))
            hagain hnext
          have hstill : action.taken? start = some values := by
            refine taken?_execute hstart htaken fun p hp q hq => ?_
            obtain ⟨earlier, hearlier, hp⟩ := hgathers.exists_of_mem hp
            exact hreached earlier hearlier action List.mem_cons_self p hp q (htakes ▸ hq)
          refine ⟨start, hstart, ?_⟩
          rw [performAll, List.foldlM_cons, perform_of_execute hstill hone]
          exact hperform

end FieldAction

namespace FieldEdit

variable {r : FieldEdit} {s after : Snapshot} {collection id : String} {d : Document}
  {op : Operation}

/-- A table of actions that do not reach into each other means its actions in order: the document
that is stored after its update is the one that the actions make of it one after another. -/
theorem stored_as_performed (hid : d.id = .ok id) (hd : s.find? collection id = some d)
    (hop : r.updateFor collection d = .ok op) (haccepted : s.apply [op] = .ok after)
    (horderly : FieldAction.Orderly d r.actions) :
    ∃ d', FieldAction.performAll d r.actions = some d' ∧
      after.find? collection id = some d' := by
  obtain ⟨_, u, hid', hu, rfl⟩ := updateFor_spec hop
  cases hid.symm.trans hid'
  obtain ⟨docs, hexec, hnil⟩ := Transaction.execute_cons_ok.1 (Snapshot.apply_ok haccepted).1
  cases hnil
  obtain ⟨_, d', hsame, hexecute, hstored⟩ := Operation.execute_update hexec
  cases hd.symm.trans hsame
  obtain ⟨_, hstart, hperform⟩ := FieldAction.performAll_of_execute (.nil d) horderly hu
    hexecute
  cases hstart
  exact ⟨d', hperform, hstored⟩

def unitEdit : FieldEdit :=
  .ofCollection "units" "units"
    [.rename "service" "application", .renameEach "endpoints" "servicename" "applicationname",
      .renameEach "endpoints" "role" "relation.role", .copy "life" "status.life",
      .set "status.agent" "old", .set "tools.version" "2.0.0", .set "status.agent" "idle",
      .unset "ports"]

def unitDocument : Document :=
  ⟨[("_id", "u"), ("service", "db"), ("life", "alive"), ("ports", .list []),
    ("endpoints", .list [.document [("servicename", "wordpress"), ("role", "requirer")],
      .document [("servicename", "mysql"), ("role", "provider")]])]⟩

def holding (collection id : String) (d : Document) : Snapshot :=
  ⟨Table.empty.insert collection (Table.empty.insert id d), []⟩

theorem stored_as_performed_unit :
    unitDocument.id = .ok "u" ∧ FieldAction.Orderly unitDocument unitEdit.actions ∧
      ∃ op after d', unitEdit.updateFor "units" unitDocument = .ok op ∧
        (holding "units" "u" unitDocument).apply [op] = .ok after ∧
        FieldAction.performAll unitDocument unitEdit.actions = some d' ∧
        after.find? "units" "u" = some d' := by
  have hid : unitDocument.id = .ok "u" := by decide +kernel
  have horderly : FieldAction.Orderly unitDocument unitEdit.actions := by decide +kernel
  have hd : (holding "units" "u" unitDocument).find? "units" "u" = some unitDocument := rfl
  obtain ⟨op, hop, haccepted⟩ := exists_ok_of_any (x := unitEdit.updateFor "units" unitDocument)
    (p := fun op => ((holding "units" "u" unitDocument).apply [op]).isOk) (by decide +kernel)
  obtain ⟨after, hafter⟩ := exists_ok_of_isOk haccepted
  obtain ⟨d', hperform, hstored⟩ := stored_as_performed hid hd hop hafter horderly
  exact ⟨hid, horderly, op, after, d', hop, hafter, hperform, hstored⟩

def chainEdit : FieldEdit :=
  .ofCollection "chain" "c" [.rename "a" "b", .rename "b" "c"]

def chainDocument : Document :=
  ⟨[("_id", "x"), ("a", .int 1), ("b", .int 2)]⟩

/-- The update takes both values from the stored document, so the second renaming moves the old value
of its field, not the one that the first renaming gave it. -/
theorem chained_renames_not_in_order :
    chainDocument.id = .ok "x" ∧ ∃ op after stored performed,
      chainEdit.updateFor "c" chainDocument = .ok op ∧
        (holding "c" "x" chainDocument).apply [op] = .ok after ∧
        after.find? "c" "x" = some stored ∧
        FieldAction.performAll chainDocument chainEdit.actions = some performed ∧
        stored.get? "c" = some (.int 2) ∧ performed.get? "c" = some (.int 1) := by
  refine ⟨by decide +kernel, _, _, _, _, rfl, rfl, rfl, rfl, rfl, rfl⟩

end FieldEdit

end FleetUpgrade
