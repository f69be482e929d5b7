import FleetUpgrade.Proofs.DocumentFields
import FleetUpgrade.Upgrade.Steps

/-! # What the steps do to one document

Each step of the upgrade that changes documents one by one, told by the fields
it leaves: what a document says afterwards if the step has a plan for it, and
what it said all along if not.
-/

namespace FleetUpgrade

open CollectionName

/-! ## Plans for one document -/

theorem inDocument_eq_ok {α : Type} {name id : String} {result : Except FieldError α} {a : α} :
    inDocument name id result = .ok a ↔ result = .ok a := by
  unfold inDocument
  cases result with
  | error e => simp
  | ok b => simp

theorem scannedId_eq_ok {name id : String} {d : Document} :
    scannedId name d = .ok id ↔ d.id = .ok id :=
  inDocument_eq_ok

def MovesWithin (collection : String) (move : Document → Except StepError Transaction) : Prop :=
  ∀ ⦃d part⦄, move d = .ok part → ∃ id, d.id = .ok id ∧
    (part = [] ∨ ∃ newId body, part = relocate collection id collection newId body)

def EditsWithin (collection : String) (editFor : Document → Except StepError Transaction) : Prop :=
  ∀ ⦃d part⦄, editFor d = .ok part → ∃ id, d.id = .ok id ∧
    (part = [] ∨ ∃ u, part = [.update collection id u])

/-! ## Updates -/

namespace Update

variable {u : Update} {d d' : Document} {path name : String} {value : Value}

theorem setOne_ok (h : setOne d (path, value) = .ok d') : d.setPath path value = (d', none) := by
  unfold setOne at h
  split at h
  · cases h
  · split at h
    · cases h
    · next hdone =>
        cases h
        exact hdone

theorem setOne_of_plain (hplain : Path.segments name = [name]) (hne : name ≠ "")
    (hid : name ≠ Document.idField) : setOne d (name, value) = .ok (d.insert name value) := by
  unfold setOne
  rw [if_neg hid, Document.setPath_of_plain hplain hne]

theorem clearOne_of_plain (hplain : Path.segments name = [name]) (hid : name ≠ Document.idField) :
    clearOne d name = .ok (d.remove name) := by
  unfold clearOne
  rw [if_neg hid, Document.unsetPath_of_plain hplain]

theorem execute_setting (h : (empty.setting path value).execute d = .ok d') :
    d.setPath path value = (d', none) := by
  obtain ⟨written, hset, hclear⟩ := Except.bind_eq_ok.1 h
  cases hclear
  obtain ⟨_, hone, hlast⟩ := Except.bind_eq_ok.1 hset
  cases hlast
  exact setOne_ok hone

theorem execute_clearing (h : (u.clearing name).execute d = .ok d')
    (hplain : Path.segments name = [name]) :
    ∃ between, u.execute d = .ok between ∧ d' = between.remove name := by
  obtain ⟨written, hset, hclear⟩ := Except.bind_eq_ok.1 h
  have hclears : (u.unset ++ [name]).foldlM clearOne written = .ok d' := hclear
  rw [List.foldlM_append, Except.bind_eq_ok] at hclears
  obtain ⟨between, hbetween, hlast⟩ := hclears
  refine ⟨between, Except.bind_eq_ok.2 ⟨written, hset, hbetween⟩, ?_⟩
  obtain ⟨cleared, hone, hdone⟩ := Except.bind_eq_ok.1 hlast
  cases hdone
  unfold clearOne at hone
  split at hone
  · cases hone
  · cases hone
    exact Document.unsetPath_of_plain hplain

end Update

/-! ## Ids -/

namespace DocId

theorem split?_spec {id scope localPart : String} (h : split? id = some (scope, localPart)) :
    ':' ∉ scope.toList ∧ scope ≠ "" ∧ localPart ≠ "" ∧ id = scope ++ ":" ++ localPart := by
  unfold split? at h
  split at h
  · next before after hcut =>
      split at h
      · cases h
      · next hne =>
          cases h
          rw [not_or] at hne
          obtain ⟨⟨cs, ds⟩, hsplit, hparts⟩ := Option.map_eq_some_iff.1 hcut
          cases hparts
          obtain ⟨hchars, hfirst⟩ := Text.splitFirst_eq_some hsplit
          refine ⟨by simpa using hfirst, hne.1, hne.2, ?_⟩
          apply String.toList_inj.1
          simp [hchars]
  · cases h

theorem cutFirst_join {scope : String} (localPart : String) (hscope : ':' ∉ scope.toList) :
    Text.cutFirst ':' (scope ++ ":" ++ localPart) = some (scope, localPart) := by
  have hchars : (scope ++ ":" ++ localPart).toList = scope.toList ++ ':' :: localPart.toList := by
    simp
  unfold Text.cutFirst
  rw [hchars, Text.splitFirst_append _ hscope, Option.map_some]
  simp

theorem join_inj {scope scope' rest rest' : String} (h : ':' ∉ scope.toList)
    (h' : ':' ∉ scope'.toList) :
    scope ++ ":" ++ rest = scope' ++ ":" ++ rest' ↔ scope = scope' ∧ rest = rest' := by
  constructor
  · intro he
    have hcut := cutFirst_join rest h
    rw [he, cutFirst_join rest' h', Option.some.injEq, Prod.mk.injEq] at hcut
    exact ⟨hcut.1.symm, hcut.2.symm⟩
  · rintro ⟨rfl, rfl⟩
    rfl

theorem split?_join {scope localPart : String} (hscope : ':' ∉ scope.toList)
    (hne : scope ≠ "") (hlocal : localPart ≠ "") :
    split? (scope ++ ":" ++ localPart) = some (scope, localPart) := by
  unfold split?
  rw [cutFirst_join localPart hscope]
  simp [hne, hlocal]

end DocId

namespace RekeyRule

/-- The ids that a rule selects, by their scope and by what follows the old start. -/
def Selected (rule : RekeyRule) (id scope rest : String) : Prop :=
  DocId.split? id = some (scope, rule.oldStart ++ rest)

theorem Selected.unique {rule : RekeyRule} {id scope rest scope' rest' : String} (h : rule.Selected id scope rest)
    (h' : rule.Selected id scope' rest') : scope = scope' ∧ rest = rest' := by
  unfold Selected at h h'
  rw [h, Option.some.injEq, Prod.mk.injEq] at h'
  have hchars := congrArg String.toList h'.2
  rw [String.toList_append, String.toList_append, List.append_cancel_left_eq,
    String.toList_inj] at hchars
  exact ⟨h'.1, hchars⟩

def newId (rule : RekeyRule) (scope rest : String) : String :=
  scope ++ ":" ++ (rule.newStart ++ rest)

/-- Neither start is a start of the other. -/
def Apart (rule : RekeyRule) : Prop :=
  ¬rule.oldStart.toList <+: rule.newStart.toList ∧ ¬rule.newStart.toList <+: rule.oldStart.toList

instance (rule : RekeyRule) : Decidable rule.Apart :=
  inferInstanceAs (Decidable (_ ∧ _))

variable {rule : RekeyRule} {id other scope rest : String}

theorem rekey?_eq_some_iff :
    rule.rekey? id = some other ↔ ∃ scope rest, rule.Selected id scope rest ∧
      other = rule.newId scope rest := by
  unfold rekey? Selected newId
  cases DocId.split? id with
  | none => simp
  | some parts =>
      obtain ⟨scope, localPart⟩ := parts
      simp only [Option.map_eq_some_iff, Text.stripLead_eq_some_iff, Option.some.injEq,
        Prod.mk.injEq, String.append_assoc]
      constructor
      · rintro ⟨rest, hlocal, hnew⟩
        exact ⟨scope, rest, ⟨rfl, hlocal⟩, hnew.symm⟩
      · rintro ⟨scope, rest, ⟨rfl, hlocal⟩, hnew⟩
        exact ⟨rest, hlocal, hnew.symm⟩

theorem rekey?_eq_none_iff : rule.rekey? id = none ↔ ∀ scope rest, ¬rule.Selected id scope rest := by
  constructor
  · intro hnone scope rest hselected
    have hsome := rekey?_eq_some_iff.2 ⟨scope, rest, hselected, rfl⟩
    rw [hnone] at hsome
    cases hsome
  · intro hno
    refine Option.eq_none_iff_forall_ne_some.2 fun other hsome => ?_
    obtain ⟨scope, rest, hselected, -⟩ := rekey?_eq_some_iff.1 hsome
    exact hno scope rest hselected

theorem localPart_newId (h : rule.Selected id scope rest)
    (hsplits : (DocId.split? (rule.newId scope rest)).isSome = true) :
    DocId.localPart (rule.newId scope rest) = rule.newStart ++ rest := by
  obtain ⟨⟨scope', localPart⟩, hsplit⟩ := Option.isSome_iff_exists.1 hsplits
  obtain ⟨hscope', -, -, he⟩ := DocId.split?_spec hsplit
  unfold DocId.localPart
  rw [hsplit]
  exact ((DocId.join_inj (DocId.split?_spec h).1 hscope').1 he).2.symm

theorem Apart.split?_newId (hapart : rule.Apart) (h : rule.Selected id scope rest) :
    DocId.split? (rule.newId scope rest) = some (scope, rule.newStart ++ rest) := by
  obtain ⟨hscope, hne, -⟩ := DocId.split?_spec h
  refine DocId.split?_join hscope hne fun he => hapart.2 ?_
  have hchars := congrArg String.toList he
  have hstart : rule.newStart.toList = [] := by
    simp at hchars
    simp [hchars.1]
  rw [hstart]
  exact List.nil_prefix

theorem Apart.not_selected_newId (hapart : rule.Apart) (h : rule.Selected id scope rest)
    (scope' rest' : String) : ¬rule.Selected (rule.newId scope rest) scope' rest' := by
  intro hselected
  unfold Selected at hselected
  rw [hapart.split?_newId h, Option.some.injEq, Prod.mk.injEq] at hselected
  have hchars := congrArg String.toList hselected.2
  rw [String.toList_append, String.toList_append] at hchars
  have hnew : rule.newStart.toList <+: rule.oldStart.toList ++ rest'.toList :=
    hchars ▸ List.prefix_append _ _
  rcases List.prefix_or_prefix_of_prefix hnew (List.prefix_append _ _) with hin | hin
  · exact hapart.2 hin
  · exact hapart.1 hin

theorem Apart.eq_of_newId_eq {id' scope' rest' : String} (hapart : rule.Apart)
    (h : rule.Selected id scope rest) (h' : rule.Selected id' scope' rest')
    (he : rule.newId scope rest = rule.newId scope' rest') : id = id' := by
  have hsplit := hapart.split?_newId h
  rw [he, hapart.split?_newId h', Option.some.injEq, Prod.mk.injEq] at hsplit
  obtain ⟨rfl, hlocal⟩ := hsplit
  have hchars := congrArg String.toList hlocal
  rw [String.toList_append, String.toList_append, List.append_cancel_left_eq,
    String.toList_inj] at hchars
  subst hchars
  rw [(DocId.split?_spec h).2.2.2, (DocId.split?_spec h').2.2.2]

end RekeyRule

/-! ## Keys of services -/

/-- The ids whose local part starts with the mark of services. -/
def ServiceKey (id : String) : Prop := ∃ scope rest, DocId.split? id = some (scope, "s#" ++ rest)

namespace RekeyRule

variable {keyField : Option String} {id newId : String}

theorem serviceKeyRule_apart (keyField : Option String) : (serviceKeyRule keyField).Apart := by
  change ¬"s#".toList <+: "a#".toList ∧ ¬"a#".toList <+: "s#".toList
  decide

theorem not_serviceKey_of_rekey?_none (h : (serviceKeyRule keyField).rekey? id = none) :
    ¬ServiceKey id := by
  rintro ⟨scope, rest, hsplit⟩
  exact rekey?_eq_none_iff.1 h scope rest hsplit

/-- What the rule makes of an id is the id of an application. -/
theorem not_serviceKey_of_rekey?_some (h : (serviceKeyRule keyField).rekey? id = some newId) :
    ¬ServiceKey newId := by
  obtain ⟨scope, rest, hselected, rfl⟩ := rekey?_eq_some_iff.1 h
  rintro ⟨scope', rest', hservice⟩
  exact (serviceKeyRule_apart keyField).not_selected_newId hselected scope' rest' hservice

end RekeyRule

/-! ## Single documents -/

theorem lookups_of_rename {d d' : Document} {u : Update}
    (hu : FieldEdit.extendAll d [.rename "service" "application", .unset "ports",
      .unset "privateaddress", .unset "publicaddress"] .empty = .ok u)
    (h : u.execute d = .ok d') :
    (∃ service, d.get? "service" = some service ∧ d'.get? "application" = some service) ∧
      ∀ field ∈ ["service", "ports", "privateaddress", "publicaddress"], d'.get? field = none := by
  simp only [FieldEdit.extendAll, FieldAction.extend] at hu
  cases hservice : d.require "service" with
  | error e => simp [hservice, Except.map] at hu
  | ok service =>
      simp only [hservice, Except.map, Except.ok.injEq] at hu
      subst hu
      obtain ⟨d₄, h₄, rfl⟩ := Update.execute_clearing h (by decide)
      obtain ⟨d₃, h₃, rfl⟩ := Update.execute_clearing h₄ (by decide)
      obtain ⟨d₂, h₂, rfl⟩ := Update.execute_clearing h₃ (by decide)
      obtain ⟨d₁, h₁, rfl⟩ := Update.execute_clearing h₂ (by decide)
      have hset := Update.execute_setting h₁
      rw [Document.setPath_of_plain (by decide) (by decide)] at hset
      cases hset
      refine ⟨⟨service, (Document.require_eq_ok_iff (by decide)).1 hservice, by simp⟩, ?_⟩
      simp

theorem lookups_of_tools {d d' : Document} {u : Update} {version : String}
    (hu : FieldEdit.extendAll d [.set "tools.version" (.string version)] .empty = .ok u)
    (h : u.execute d = .ok d') :
    d'.getPath "tools.version" = some (.string version) ∧
      ∀ name, name ≠ "tools" → d'.get? name = d.get? name := by
  cases hu
  have hset := Update.execute_setting h
  refine ⟨Document.getPath_setPath hset, fun name hname => ?_⟩
  have hsegments : Path.segments "tools.version" = ["tools", "version"] := by decide
  have hother : ∀ rest, Path.segments "tools.version" ≠ name :: rest := by
    intro rest he
    rw [hsegments] at he
    exact hname (List.cons.inj he).1.symm
  have hkeep : (d.setPath "tools.version" (.string version)).1.get? name = d.get? name :=
    Document.get?_setPath_of_ne hother
  rwa [hset] at hkeep

theorem FieldEdit.updateFor_spec {r : FieldEdit} {collection : String} {d : Document}
    {op : Operation} (h : r.updateFor collection d = .ok op) :
    ∃ id u, d.id = .ok id ∧ extendAll d r.actions .empty = .ok u ∧
      op = .update collection id u := by
  unfold updateFor at h
  split at h
  · cases h
  · next id hid =>
      obtain ⟨u, hu, hop⟩ := Except.map_eq_ok.1 h
      exact ⟨id, u, scannedId_eq_ok.1 hid, inDocument_eq_ok.1 hu, hop.symm⟩

theorem FieldEdit.editsWithin (r : FieldEdit) (collection : String) :
    EditsWithin collection fun d => (r.updateFor collection d).map fun op => [op] := by
  intro d part h
  obtain ⟨op, hop, rfl⟩ := Except.map_eq_ok.1 h
  obtain ⟨id, u, hid, -, rfl⟩ := updateFor_spec hop
  exact ⟨id, hid, Or.inr ⟨u, rfl⟩⟩

theorem MachineContainers.editFor_spec {d : Document} {part : Transaction}
    (h : editFor d = .ok part) :
    ∃ id, d.id = .ok id ∧ ((part = [] ∧ d.get? "supportedcontainers" = none) ∨
      ∃ containers, d.get? "supportedcontainers" = some (.list containers) ∧
        part = [.update machines id (Update.empty.setting "supportedcontainers"
          (.list (containers.filter fun container => container.string? ≠ some retired)))]) := by
  unfold editFor at h
  obtain ⟨id, hid, h⟩ := Except.bind_eq_ok.1 h
  refine ⟨id, scannedId_eq_ok.1 hid, ?_⟩
  split at h
  · obtain ⟨containers, hlist, h⟩ := Except.bind_eq_ok.1 h
    cases h
    rw [inDocument_eq_ok, Document.getList_eq_ok_iff (by decide)] at hlist
    exact Or.inr ⟨containers, hlist, rfl⟩
  · next habsent =>
      cases h
      refine Or.inl ⟨rfl, ?_⟩
      simpa [Document.contains] using habsent

theorem MachineContainers.editsWithin : EditsWithin machines editFor := by
  intro d part h
  obtain ⟨id, hid, ⟨hnone, -⟩ | ⟨containers, -, hone⟩⟩ := editFor_spec h
  · exact ⟨id, hid, Or.inl hnone⟩
  · exact ⟨id, hid, Or.inr ⟨_, hone⟩⟩

theorem Lease.move_spec {d : Document} {part : Transaction} (h : move d = .ok part) :
    ∃ id, d.id = .ok id ∧
      ((part = [] ∧ d.get? "namespace" ≠ some (.string serviceLeadership)) ∨
        ∃ modelUuid kind name, d.get? "namespace" = some (.string serviceLeadership) ∧
          d.getString "model-uuid" = .ok modelUuid ∧ d.getString "type" = .ok kind ∧
          d.getString? "name" = .ok name ∧
          part = relocate leases id leases (newId modelUuid kind name)
            (d.withoutBookkeeping.replace "namespace" applicationLeadership)) := by
  unfold move at h
  obtain ⟨id, hid, h⟩ := Except.bind_eq_ok.1 h
  refine ⟨id, scannedId_eq_ok.1 hid, ?_⟩
  obtain ⟨scope, hscope, h⟩ := Except.bind_eq_ok.1 h
  rw [inDocument_eq_ok] at hscope
  split at h
  · cases h
  · split at h
    · next hservice =>
        rw [hservice, Document.getString?_eq_ok_some_iff (by decide)] at hscope
        obtain ⟨modelUuid, hmodel, h⟩ := Except.bind_eq_ok.1 h
        obtain ⟨kind, hkind, h⟩ := Except.bind_eq_ok.1 h
        obtain ⟨name, hname, h⟩ := Except.bind_eq_ok.1 h
        cases h
        rw [inDocument_eq_ok] at hmodel hkind hname
        exact Or.inr ⟨modelUuid, kind, name, hscope, hmodel, hkind, hname, rfl⟩
    · next hservice =>
        cases h
        refine Or.inl ⟨rfl, fun hd => hservice ?_⟩
        rw [(Document.getString?_eq_ok_some_iff (by decide)).2 hd] at hscope
        exact (Except.ok.inj hscope).symm

theorem Lease.movesWithin : MovesWithin leases move := by
  intro d part h
  obtain ⟨id, hid, ⟨hnone, -⟩ | ⟨_, _, _, -, -, -, -, hmove⟩⟩ := move_spec h
  · exact ⟨id, hid, Or.inl hnone⟩
  · exact ⟨id, hid, Or.inr ⟨_, _, hmove⟩⟩

theorem StatusHistory.editFor_spec {d : Document} {part : Transaction}
    (h : editFor d = .ok part) :
    ∃ id, d.id = .ok id ∧
      ((part = [] ∧ ∀ rest, d.get? "globalkey" ≠ some (.string ("s#" ++ rest))) ∨
        ∃ rest, part = [.update statusesHistory id
          (Update.empty.setting "globalkey" (.string ("a#" ++ rest)))]) := by
  unfold editFor at h
  obtain ⟨id, hid, h⟩ := Except.bind_eq_ok.1 h
  refine ⟨id, scannedId_eq_ok.1 hid, ?_⟩
  obtain ⟨key, hkey, h⟩ := Except.bind_eq_ok.1 h
  rw [inDocument_eq_ok, Document.getString_eq_ok_iff (by decide)] at hkey
  split at h
  · next hnone =>
      cases h
      refine Or.inl ⟨rfl, fun rest hd => ?_⟩
      rw [hkey, Option.some.injEq, Value.string.injEq] at hd
      exact Text.stripLead_eq_none_iff.1 hnone rest hd
  · next rest _ =>
      cases h
      exact Or.inr ⟨rest, rfl⟩

theorem StatusHistory.editsWithin : EditsWithin statusesHistory editFor := by
  intro d part h
  obtain ⟨id, hid, ⟨hnone, -⟩ | ⟨rest, hone⟩⟩ := editFor_spec h
  · exact ⟨id, hid, Or.inl hnone⟩
  · exact ⟨id, hid, Or.inr ⟨_, hone⟩⟩

theorem Sequence.move_spec {d : Document} {part : Transaction} (h : move d = .ok part) :
    ∃ id tag, d.id = .ok id ∧ d.get? "name" = some (.string tag) ∧
      ((part = [] ∧ ServiceTag.name? tag = none) ∨
        ∃ service modelUuid, ServiceTag.name? tag = some service ∧
          d.getString "model-uuid" = .ok modelUuid ∧
          part = relocate sequence id sequence (modelUuid ++ ":" ++ ("application-" ++ service))
            (d.withoutBookkeeping.replace "name" (.string ("application-" ++ service)))) := by
  unfold move at h
  obtain ⟨id, hid, h⟩ := Except.bind_eq_ok.1 h
  obtain ⟨tag, htag, h⟩ := Except.bind_eq_ok.1 h
  rw [inDocument_eq_ok, Document.getString_eq_ok_iff (by decide)] at htag
  refine ⟨id, tag, scannedId_eq_ok.1 hid, htag, ?_⟩
  split at h
  · next hnone =>
      cases h
      exact Or.inl ⟨rfl, hnone⟩
  · next service hservice =>
      obtain ⟨modelUuid, hmodel, h⟩ := Except.bind_eq_ok.1 h
      cases h
      exact Or.inr ⟨service, modelUuid, hservice, inDocument_eq_ok.1 hmodel, rfl⟩

theorem Sequence.movesWithin : MovesWithin sequence move := by
  intro d part h
  obtain ⟨id, _, hid, -, ⟨hnone, -⟩ | ⟨_, _, -, -, hmove⟩⟩ := move_spec h
  · exact ⟨id, hid, Or.inl hnone⟩
  · exact ⟨id, hid, Or.inr ⟨_, _, hmove⟩⟩

theorem ImageMetadata.move_spec {d : Document} {part : Transaction} (h : move d = .ok part) :
    ∃ id, d.id = .ok id ∧
      ((part = [] ∧ DocId.split? id = none) ∨
        ∃ scope localPart, DocId.split? id = some (scope, localPart) ∧
          part = relocate cloudImageMetadata id cloudImageMetadata localPart
            (d.withoutBookkeeping.remove "model-uuid")) := by
  unfold move at h
  obtain ⟨id, hid, h⟩ := Except.bind_eq_ok.1 h
  refine ⟨id, scannedId_eq_ok.1 hid, ?_⟩
  split at h
  · next hnone =>
      cases h
      exact Or.inl ⟨rfl, hnone⟩
  · next scope localPart hsplit =>
      cases h
      exact Or.inr ⟨scope, localPart, hsplit, rfl⟩

theorem ImageMetadata.movesWithin : MovesWithin cloudImageMetadata move := by
  intro d part h
  obtain ⟨id, hid, ⟨hnone, -⟩ | ⟨_, _, -, hmove⟩⟩ := move_spec h
  · exact ⟨id, hid, Or.inl hnone⟩
  · exact ⟨id, hid, Or.inr ⟨_, _, hmove⟩⟩

theorem ServiceTag.name?_application (application : String) :
    name? ("application-" ++ application) = none := by
  have hno : Text.stripLead lead ("application-" ++ application) = none := by
    rw [Text.stripLead_eq_none_iff]
    intro rest he
    have hchars := congrArg String.toList he
    simp [lead] at hchars
  unfold name?
  rw [hno]
  rfl

theorem Document.get?_moved {d : Document} {id name : String} {value old : Value}
    (hd : d.get? name = some old) (hname : name ∉ bookkeepingFields) :
    (inserted id (d.withoutBookkeeping.replace name value)).get? name = some value := by
  have hne : name ≠ idField := by
    rintro rfl
    exact hname (by simp [bookkeepingFields])
  have hkept : d.withoutBookkeeping.get? name = some old := by
    rw [withoutBookkeeping, get?_without _ hname, hd]
  rw [get?_inserted _ hne, get?_replace_self _ hkept]

end FleetUpgrade
