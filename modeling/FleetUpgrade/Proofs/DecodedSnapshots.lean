import FleetUpgrade.Proofs.ContentEffects
import FleetUpgrade.Proofs.SnapshotText

/-! # What decoding yields

Whatever a text writes, the snapshot decoded from it has no document with a name
twice, and its own JSON form nests no deeper than the room that decoding was given.
-/

namespace FleetUpgrade

theorem Json.exists_of_mapM_some {α β : Type} {f : β → Option α} {items : List β} {xs : List α}
    (h : items.mapM f = some xs) {x : α} (hx : x ∈ xs) : ∃ item ∈ items, f item = some x := by
  induction items generalizing xs with
  | nil =>
      cases h
      exact absurd hx List.not_mem_nil
  | cons item items ih =>
      rw [List.mapM_cons] at h
      obtain ⟨first, hfirst, hrest⟩ := Option.bind_eq_some_iff.1 h
      obtain ⟨others, hothers, hxs⟩ := Option.bind_eq_some_iff.1 hrest
      cases hxs
      rcases List.mem_cons.1 hx with rfl | hmem
      · exact ⟨item, List.mem_cons_self, hfirst⟩
      · obtain ⟨found, hfound, hdecoded⟩ := ih hothers hmem
        exact ⟨found, List.mem_cons_of_mem item hfound, hdecoded⟩

/-! ## Values -/

namespace Fields

theorem nodup_collapse (fields : Fields) : (names (collapse fields)).Nodup :=
  List.foldlRecOn (motive := fun done => (names done).Nodup) fields _ List.nodup_nil
    fun _ hdone _ _ => nodup_put hdone

theorem mem_of_mem_collapse {fields : Fields} {field : String × Value}
    (h : field ∈ collapse fields) : field ∈ fields := by
  refine List.foldlRecOn (motive := fun done => field ∈ done → field ∈ fields) fields _
    (fun hnil => absurd hnil List.not_mem_nil) (fun done hdone first hfirst hput => ?_) h
  rcases mem_put hput with rfl | hold
  · exact hfirst
  · exact hdone hold

end Fields

namespace Value

theorem fieldsToJson_eq_map (fields : List (String × Value)) :
    fieldsToJson fields = fields.map fun field => (field.1, field.2.toJson) := by
  induction fields with
  | nil => rfl
  | cons field fields ih =>
      rw [fieldsToJson, ih]
      rfl

theorem nestingFields_collapse_le (fields : Fields) :
    Json.nestingFields (fieldsToJson (Fields.collapse fields)) ≤
      Json.nestingFields (fieldsToJson fields) := by
  rw [fieldsToJson_eq_map, fieldsToJson_eq_map, Json.nestingFields_le_iff, List.forall_mem_map]
  intro field hfield
  exact Json.nestingFields_le_iff.1 (Nat.le_refl _) (field.1, field.2.toJson)
    (List.mem_map_of_mem (Fields.mem_of_mem_collapse hfield))

mutual

/-- A decoded value has no name twice and nests no deeper than what it was decoded from. -/
theorem ofJson?_spec : ∀ (j : Json) (v : Value), ofJson? j = some v →
    v.all namesOnce = true ∧ v.toJson.nesting ≤ j.nesting
  | .null, _, h => by
      cases h
      exact ⟨rfl, Nat.le_refl 0⟩
  | .bool b, _, h => by
      cases h
      exact ⟨rfl, Nat.le_refl 0⟩
  | .number n, v, h => by
      rw [ofJson?] at h
      split at h
      · cases h
        exact ⟨rfl, Nat.le_refl 0⟩
      · obtain ⟨x, -, rfl⟩ := Option.map_eq_some_iff.1 h
        exact ⟨rfl, Nat.le_refl 0⟩
  | .string s, _, h => by
      cases h
      exact ⟨rfl, Nat.le_refl 0⟩
  | .array items, v, h => by
      rw [ofJson?] at h
      obtain ⟨vs, hvs, rfl⟩ := Option.map_eq_some_iff.1 h
      obtain ⟨honce, hnesting⟩ := itemsOfJson?_spec items vs hvs
      exact ⟨all_list.2 ⟨kept_namesOnce.list vs, honce⟩, Nat.succ_le_succ hnesting⟩
  | .object fields, v, h => by
      rw [ofJson?] at h
      obtain ⟨fs, hfs, rfl⟩ := Option.map_eq_some_iff.1 h
      obtain ⟨honce, hnesting⟩ := fieldsOfJson?_spec fields fs hfs
      have hfields : allFields namesOnce (Fields.collapse fs) = true :=
        allFields_iff.2 fun field hfield =>
          allFields_iff.1 honce field (Fields.mem_of_mem_collapse hfield)
      exact ⟨all_document.2 ⟨decide_eq_true (Fields.nodup_collapse fs), hfields⟩,
        Nat.succ_le_succ (Nat.le_trans (nestingFields_collapse_le fs) hnesting)⟩
  | .garbled, _, h => nomatch h

theorem itemsOfJson?_spec : ∀ (items : List Json) (vs : List Value),
    itemsOfJson? items = some vs →
      allItems namesOnce vs = true ∧ Json.nestingItems (itemsToJson vs) ≤ Json.nestingItems items
  | [], _, h => by
      cases h
      exact ⟨rfl, Nat.le_refl 0⟩
  | item :: items, _, h => by
      rw [itemsOfJson?] at h
      split at h
      · next v vs hv hvs =>
          cases h
          obtain ⟨honce, hnesting⟩ := ofJson?_spec item v hv
          obtain ⟨honces, hnestings⟩ := itemsOfJson?_spec items vs hvs
          refine ⟨Bool.and_eq_true_iff.2 ⟨honce, honces⟩, ?_⟩
          simp only [itemsToJson, Json.nestingItems]
          omega
      · cases h

theorem fieldsOfJson?_spec : ∀ (fields : List (String × Json)) (fs : Fields),
    fieldsOfJson? fields = some fs →
      allFields namesOnce fs = true ∧
        Json.nestingFields (fieldsToJson fs) ≤ Json.nestingFields fields
  | [], _, h => by
      cases h
      exact ⟨rfl, Nat.le_refl 0⟩
  | (name, item) :: fields, _, h => by
      rw [fieldsOfJson?] at h
      split at h
      · next v fs hv hfs =>
          cases h
          obtain ⟨honce, hnesting⟩ := ofJson?_spec item v hv
          obtain ⟨honces, hnestings⟩ := fieldsOfJson?_spec fields fs hfs
          refine ⟨Bool.and_eq_true_iff.2 ⟨honce, honces⟩, ?_⟩
          simp only [fieldsToJson, Json.nestingFields]
          omega
      · cases h

end

end Value

section

variable {room : Nat} {j : Json}

theorem Document.decode?_spec {d : Document} (h : Document.decode? room j = some d) :
    d.all Value.namesOnce = true ∧ d.toJson.nesting ≤ room := by
  unfold Document.decode? at h
  split at h
  · next fields =>
      split at h
      · next fs hvalue =>
          cases h
          unfold Value.decode? at hvalue
          split at hvalue
          · next hfits =>
              obtain ⟨honce, hnesting⟩ := Value.ofJson?_spec _ _ hvalue
              exact ⟨honce, Nat.le_trans hnesting hfits⟩
          · cases hvalue
      · cases h
  · cases h

/-! ## Operations -/

theorem Update.decode?_spec {u : Update} (hroom : 2 ≤ room) (h : Update.decode? room j = some u) :
    u.set.all Value.namesOnce = true ∧ u.toJson.nesting ≤ room := by
  unfold Update.decode? at h
  split at h
  · split at h
    · next set unset hset hunset =>
        cases h
        obtain ⟨honce, hnesting⟩ := Document.decode?_spec hset
        exact ⟨honce, (Update.nesting_toJson_le_iff ⟨set, unset⟩ hroom).2 hnesting⟩
    · cases h
  · cases h

theorem Change.decode?_spec {c : Change} (hroom : 3 ≤ room) (h : Change.decode? room j = some c) :
    c.all Value.namesOnce = true ∧ c.toJson.nesting ≤ room := by
  unfold Change.decode? at h
  split at h
  · obtain ⟨body, hbody, rfl⟩ := Option.map_eq_some_iff.1 h
    obtain ⟨honce, hnesting⟩ := Document.decode?_spec hbody
    exact ⟨honce, (Change.nesting_insert_le_iff body (by omega)).2 hnesting⟩
  · obtain ⟨changes, hchanges, rfl⟩ := Option.map_eq_some_iff.1 h
    obtain ⟨honce, hnesting⟩ := Update.decode?_spec (by omega) hchanges
    exact ⟨honce, (Change.nesting_update_le_iff changes (by omega)).2 hnesting⟩
  · cases h
    exact ⟨rfl, Nat.zero_le room⟩
  · cases h
    exact ⟨rfl, Nat.zero_le room⟩
  · cases h

theorem Operation.decode?_spec {op : Operation} (hroom : 4 ≤ room)
    (h : Operation.decode? room j = some op) :
    op.change.all Value.namesOnce = true ∧ op.toJson.nesting ≤ room := by
  unfold Operation.decode? at h
  split at h
  · next collection id _ _ _ =>
      split at h
      · next precondition change _ hchange =>
          cases h
          obtain ⟨honce, hnesting⟩ := Change.decode?_spec (by omega) hchange
          exact ⟨honce, (Operation.nesting_toJson_le_iff
            ⟨collection, id, precondition, change⟩ (by omega)).2 hnesting⟩
      · cases h
  · cases h

theorem Transaction.decode?_spec {ops : Transaction} (hroom : 5 ≤ room)
    (h : Transaction.decode? room j = some ops) :
    Transaction.all Value.namesOnce ops = true ∧ (Transaction.toJson ops).nesting ≤ room := by
  unfold Transaction.decode? at h
  split at h
  · have hone : ∀ op ∈ ops, op.change.all Value.namesOnce = true ∧
        op.toJson.nesting ≤ room - 1 := fun op hop => by
      obtain ⟨item, -, hitem⟩ := Json.exists_of_mapM_some h hop
      exact Operation.decode?_spec (by omega) hitem
    exact ⟨List.all_eq_true.2 fun op hop => (hone op hop).1,
      (Transaction.nesting_toJson_le_iff ops (by omega)).2 fun op hop => (hone op hop).2⟩
  · cases h

/-! ## Snapshots -/

namespace Snapshot

theorem exists_of_decodeTable? {α : Type} {decode : Json → Option α} {t : Table α}
    (h : decodeTable? decode j = some t) {entry : String × α} (hentry : entry ∈ t.entries) :
    ∃ item, decode item = some entry.2 := by
  unfold decodeTable? at h
  split at h
  · next fields =>
      obtain ⟨entries, hentries, rfl⟩ := Option.map_eq_some_iff.1 h
      obtain ⟨field, -, hfield⟩ := Json.exists_of_mapM_some hentries (Table.mem_of_mem_ofList hentry)
      obtain ⟨value, hvalue, rfl⟩ := Option.map_eq_some_iff.1 hfield
      exact ⟨field.2, hvalue⟩
  · cases h

theorem decodePending?_spec {written : Option Json} {pending : List Transaction}
    (hroom : 6 ≤ room) (h : decodePending? room written = some pending) :
    (∀ ops ∈ pending, Transaction.all Value.namesOnce ops = true) ∧
      (Json.array (pending.map Transaction.toJson)).nesting ≤ room := by
  have hone : ∀ ops ∈ pending, Transaction.all Value.namesOnce ops = true ∧
      (Transaction.toJson ops).nesting ≤ room - 1 := by
    intro ops hops
    unfold decodePending? at h
    split at h
    · cases h
      exact absurd hops List.not_mem_nil
    · obtain ⟨item, -, hitem⟩ := Json.exists_of_mapM_some h hops
      exact Transaction.decode?_spec (by omega) hitem
    · cases h
  exact ⟨fun ops hops => (hone ops hops).1,
    (Json.nesting_array_map_le_iff (by omega)).2 fun ops hops => (hone ops hops).2⟩

theorem decode?_spec {s : Snapshot} (hroom : 7 ≤ room) (h : decode? room j = some s) :
    s.namesOnce = true ∧ s.toJson.nesting ≤ room := by
  unfold decode? at h
  split at h
  · split at h
    · next collections pending hcollections hpending =>
        cases h
        obtain ⟨honce, hjournal⟩ := decodePending?_spec (by omega) hpending
        have hdocuments : ∀ entry ∈ collections.entries, ∀ document ∈ entry.2.entries,
            document.2.all Value.namesOnce = true ∧ document.2.toJson.nesting ≤ room - 3 := by
          intro entry hentry document hdocument
          obtain ⟨_, htable⟩ := exists_of_decodeTable? hcollections hentry
          obtain ⟨_, hdecoded⟩ := exists_of_decodeTable? htable hdocument
          exact Document.decode?_spec hdecoded
        have hnesting : (collectionsToJson collections).nesting ≤ room - 1 := by
          refine (nesting_collectionsToJson_le_iff collections (by omega)).2 fun entry hentry => ?_
          refine (nesting_collectionToJson_le_iff entry.2 (by omega)).2 fun document hdocument => ?_
          exact (hdocuments entry hentry document hdocument).2
        exact ⟨all_iff.2 ⟨fun entry hentry document hdocument =>
          (hdocuments entry hentry document hdocument).1, honce⟩,
          (nesting_toJson_le_iff ⟨collections, pending⟩ (by omega)).2 ⟨hnesting, hjournal⟩⟩
    · cases h
  · cases h

/-- A snapshot that was read has no name twice and nests fewer than 128 deep. -/
theorem parse?_spec {text : String} {s : Snapshot} (h : parse? text = some s) :
    s.namesOnce = true ∧ s.toJson.nesting < 128 := by
  obtain ⟨j, -, hdecoded⟩ := Option.bind_eq_some_iff.1 h
  obtain ⟨honce, hnesting⟩ := decode?_spec (by decide) hdecoded
  exact ⟨honce, Nat.lt_succ_of_le hnesting⟩

end Snapshot

end

end FleetUpgrade
