import FleetUpgrade.Proofs.ContentEffects
import FleetUpgrade.Proofs.Contents
import FleetUpgrade.Proofs.JsonText
import FleetUpgrade.Proofs.Table
import FleetUpgrade.Proofs.Recovery
import FleetUpgrade.Snapshot.Json

/-! # Decoding what was encoded

A snapshot without binary64 numbers is decoded from its file's text as it is, if
the JSON form nests at most as deep as a whole text may; if it nests deeper, the
text is no snapshot. Each part of a snapshot is decoded from its own tree under
the same condition, within the room that is left for it.
-/

namespace FleetUpgrade

namespace Json

variable {α β : Type}

theorem nestingItems_le_iff {items : List Json} {n : Nat} :
    nestingItems items ≤ n ↔ ∀ item ∈ items, item.nesting ≤ n := by
  induction items with
  | nil => simp [nestingItems]
  | cons item items ih => simp [nestingItems, ih]

theorem nestingFields_le_iff {fields : List (String × Json)} {n : Nat} :
    nestingFields fields ≤ n ↔ ∀ field ∈ fields, field.2.nesting ≤ n := by
  induction fields with
  | nil => simp [nestingFields]
  | cons field fields ih => simp [nestingFields, ih]

theorem nesting_lt_of_mem {name : String} {item : Json} {fields : List (String × Json)}
    (h : (name, item) ∈ fields) : item.nesting < (Json.object fields).nesting := by
  have hle := nestingFields_le_iff.1 (Nat.le_refl (nestingFields fields)) (name, item) h
  exact Nat.lt_succ_of_le hle

theorem wellFormedItems_iff {items : List Json} :
    WellFormedItems items ↔ ∀ item ∈ items, item.WellFormed := by
  induction items with
  | nil => simp [WellFormedItems]
  | cons item items ih => simp [WellFormedItems, ih]

theorem wellFormedFields_iff {fields : List (String × Json)} :
    WellFormedFields fields ↔ ∀ field ∈ fields, field.2.WellFormed := by
  induction fields with
  | nil => simp [WellFormedFields]
  | cons field fields ih => simp [WellFormedFields, ih]

/-- Decoding what was encoded piece by piece, when each piece may be refused. -/
theorem mapM_map_eq_ite {f : β → Option α} {g : α → β} {P : α → Prop} [DecidablePred P]
    {xs : List α} (h : ∀ x ∈ xs, f (g x) = if P x then some x else none) :
    (xs.map g).mapM f = if ∀ x ∈ xs, P x then some xs else none := by
  induction xs with
  | nil => simp
  | cons x xs ih =>
      have hrest := ih fun y hy => h y (List.mem_cons_of_mem x hy)
      rw [List.map_cons, List.mapM_cons, h x List.mem_cons_self, hrest]
      by_cases hx : P x
      · by_cases hxs : ∀ y ∈ xs, P y
        · rw [if_pos hx, if_pos hxs, if_pos (List.forall_mem_cons.2 ⟨hx, hxs⟩)]
          rfl
        · rw [if_pos hx, if_neg hxs, if_neg fun hall => hxs (List.forall_mem_cons.1 hall).2]
          rfl
      · rw [if_neg hx, if_neg fun hall => hx (List.forall_mem_cons.1 hall).1]
        rfl

theorem Numeral.toInt64?_ofInt (i : Int64) : (Numeral.ofInt i.toInt).toInt64? = some i := by
  have hvalue : Decimal.value (Numeral.ofInt i.toInt).whole = i.toInt.natAbs :=
    Decimal.value_ofNat _
  have hlow := i.le_toInt
  have hhigh := i.toInt_lt
  unfold Numeral.toInt64?
  rw [hvalue, if_pos ⟨rfl, rfl⟩]
  by_cases hneg : i.toInt < 0
  · have hsign : (Numeral.ofInt i.toInt).negative = true := decide_eq_true hneg
    have hrange : 0 < i.toInt.natAbs ∧ i.toInt.natAbs ≤ Nat.pow 2 63 := by
      have hpow : Nat.pow 2 63 = 9223372036854775808 := rfl
      omega
    have habs : -(i.toInt.natAbs : Int) = i.toInt := by omega
    rw [hsign, if_pos rfl, if_pos hrange, habs, Int64.ofInt_toInt]
  · have hsign : (Numeral.ofInt i.toInt).negative = false := decide_eq_false hneg
    have hrange : i.toInt.natAbs < Nat.pow 2 63 := by
      have hpow : Nat.pow 2 63 = 9223372036854775808 := rfl
      omega
    have habs : (i.toInt.natAbs : Int) = i.toInt := by omega
    rw [hsign, if_neg Bool.false_ne_true, if_pos hrange, habs, Int64.ofInt_toInt]

end Json

/-! ## Values -/

namespace Value

mutual

theorem ofJson?_toJson : ∀ v : Value, v.all noFloat = true → v.all namesOnce = true →
    ofJson? v.toJson = some v
  | .null, _, _ => rfl
  | .bool _, _, _ => rfl
  | .int i, _, _ => by
      simp only [toJson, Json.ofInt, ofJson?, Json.Numeral.toInt64?_ofInt]
  | .float _, hfloat, _ => absurd hfloat nofun
  | .string _, _, _ => rfl
  | .list items, hfloat, honce => by
      obtain ⟨-, hfloats⟩ := all_list.1 hfloat
      obtain ⟨-, honces⟩ := all_list.1 honce
      rw [toJson, ofJson?, itemsOfJson?_itemsToJson items hfloats honces, Option.map_some]
  | .document fields, hfloat, honce => by
      obtain ⟨-, hfloats⟩ := all_document.1 hfloat
      obtain ⟨hnames, honces⟩ := all_document.1 honce
      have hcollapse : Fields.collapse fields = fields :=
        Fields.collapse_of_nodup (of_decide_eq_true hnames)
      rw [toJson, ofJson?, fieldsOfJson?_fieldsToJson fields hfloats honces, Option.map_some,
        hcollapse]

theorem itemsOfJson?_itemsToJson : ∀ items : List Value, allItems noFloat items = true →
    allItems namesOnce items = true → itemsOfJson? (itemsToJson items) = some items
  | [], _, _ => rfl
  | item :: items, hfloat, honce => by
      obtain ⟨hfloat, hfloats⟩ := Bool.and_eq_true_iff.1 hfloat
      obtain ⟨honce, honces⟩ := Bool.and_eq_true_iff.1 honce
      simp only [itemsToJson, itemsOfJson?, ofJson?_toJson item hfloat honce,
        itemsOfJson?_itemsToJson items hfloats honces]

theorem fieldsOfJson?_fieldsToJson : ∀ fields : List (String × Value),
    allFields noFloat fields = true → allFields namesOnce fields = true →
      fieldsOfJson? (fieldsToJson fields) = some fields
  | [], _, _ => rfl
  | (name, value) :: fields, hfloat, honce => by
      obtain ⟨hfloat, hfloats⟩ := Bool.and_eq_true_iff.1 hfloat
      obtain ⟨honce, honces⟩ := Bool.and_eq_true_iff.1 honce
      simp only [fieldsToJson, fieldsOfJson?, ofJson?_toJson value hfloat honce,
        fieldsOfJson?_fieldsToJson fields hfloats honces]

end

mutual

theorem wellFormed_toJson : ∀ v : Value, v.all noFloat = true → v.toJson.WellFormed
  | .null, _ => trivial
  | .bool _, _ => trivial
  | .int i, _ => Json.Numeral.wellFormed_ofInt i.toInt
  | .float _, hfloat => absurd hfloat nofun
  | .string _, _ => trivial
  | .list items, hfloat => wellFormed_itemsToJson items (all_list.1 hfloat).2
  | .document fields, hfloat => wellFormed_fieldsToJson fields (all_document.1 hfloat).2

theorem wellFormed_itemsToJson : ∀ items : List Value, allItems noFloat items = true →
    Json.WellFormedItems (itemsToJson items)
  | [], _ => trivial
  | item :: items, hfloat =>
      ⟨wellFormed_toJson item (Bool.and_eq_true_iff.1 hfloat).1,
        wellFormed_itemsToJson items (Bool.and_eq_true_iff.1 hfloat).2⟩

theorem wellFormed_fieldsToJson : ∀ fields : List (String × Value),
    allFields noFloat fields = true → Json.WellFormedFields (fieldsToJson fields)
  | [], _ => trivial
  | (_, value) :: fields, hfloat =>
      ⟨wellFormed_toJson value (Bool.and_eq_true_iff.1 hfloat).1,
        wellFormed_fieldsToJson fields (Bool.and_eq_true_iff.1 hfloat).2⟩

end

end Value

theorem Document.decode?_toJson {d : Document} (room : Nat) (hfloat : d.all Value.noFloat = true)
    (honce : d.all Value.namesOnce = true) :
    Document.decode? room d.toJson = if d.toJson.nesting ≤ room then some d else none := by
  have hobject : d.toJson = .object (Value.fieldsToJson d.fields) := rfl
  by_cases hroom : d.toJson.nesting ≤ room
  · have hvalue : Value.decode? room d.toJson = some (Value.ofDocument d) :=
      (if_pos hroom).trans (Value.ofJson?_toJson (Value.ofDocument d) hfloat honce)
    rw [if_pos hroom]
    rw [hobject] at hvalue ⊢
    simp only [Document.decode?, hvalue, Value.ofDocument]
  · have hvalue : Value.decode? room d.toJson = none := if_neg hroom
    rw [if_neg hroom]
    rw [hobject] at hvalue ⊢
    simp only [Document.decode?, hvalue]

/-! ## Operations -/

theorem Json.nesting_strings (strings : List String) :
    (Json.array (strings.map .string)).nesting = 1 := by
  have hitems : Json.nestingItems (strings.map .string) ≤ 0 :=
    Json.nestingItems_le_iff.2 fun item hitem => by
      obtain ⟨s, -, rfl⟩ := List.mem_map.1 hitem
      exact Nat.le_refl 0
  simp only [Json.nesting]
  omega

theorem Json.strings?_strings (strings : List String) :
    (Json.array (strings.map .string)).strings? = some strings :=
  List.mapM_eq_some_iff_map.2 List.map_map

section

variable {room : Nat}

theorem Update.nesting_toJson_le_iff (u : Update) (hroom : 2 ≤ room) :
    u.toJson.nesting ≤ room ↔ u.set.toJson.nesting ≤ room - 1 := by
  have hstrings := Json.nesting_strings u.unset
  simp only [Update.toJson, Json.nesting, Json.nestingFields] at hstrings ⊢
  omega

theorem Update.decode?_toJson {u : Update} (hroom : 2 ≤ room)
    (hfloat : u.set.all Value.noFloat = true) (honce : u.set.all Value.namesOnce = true) :
    Update.decode? room u.toJson = if u.toJson.nesting ≤ room then some u else none := by
  have hrecord : Json.record? ["set", "unset"] u.toJson =
      some [some u.set.toJson, some (.array (u.unset.map .string))] := rfl
  unfold Update.decode?
  simp only [hrecord, Document.decode?_toJson (room - 1) hfloat honce, Json.strings?_strings,
    u.nesting_toJson_le_iff hroom]
  by_cases hfits : u.set.toJson.nesting ≤ room - 1
  · simp only [if_pos hfits]
  · simp only [if_neg hfits]

theorem Change.nesting_insert_le_iff (body : Document) (hroom : 1 ≤ room) :
    (Change.insert body).toJson.nesting ≤ room ↔ body.toJson.nesting ≤ room - 1 := by
  simp only [Change.toJson, Json.nesting, Json.nestingFields]
  omega

theorem Change.nesting_update_le_iff (changes : Update) (hroom : 1 ≤ room) :
    (Change.update changes).toJson.nesting ≤ room ↔ changes.toJson.nesting ≤ room - 1 := by
  simp only [Change.toJson, Json.nesting, Json.nestingFields]
  omega

theorem Change.decode?_toJson {c : Change} (hroom : 3 ≤ room)
    (hfloat : c.all Value.noFloat = true) (honce : c.all Value.namesOnce = true) :
    Change.decode? room c.toJson = if c.toJson.nesting ≤ room then some c else none := by
  cases c with
  | insert body =>
      change (Document.decode? (room - 1) body.toJson).map Change.insert = _
      rw [Document.decode?_toJson (room - 1) hfloat honce]
      simp only [Change.nesting_insert_le_iff body (by omega : 1 ≤ room)]
      split <;> rfl
  | update changes =>
      change (Update.decode? (room - 1) changes.toJson).map Change.update = _
      rw [Update.decode?_toJson (by omega) hfloat honce]
      simp only [Change.nesting_update_le_iff changes (by omega : 1 ≤ room)]
      split <;> rfl
  | remove => exact (if_pos (Nat.zero_le room)).symm

theorem Precondition.ofName?_name (p : Precondition) : ofName? p.name = some p := by
  cases p <;> rfl

theorem Operation.nesting_toJson_le_iff (op : Operation) (hroom : 1 ≤ room) :
    op.toJson.nesting ≤ room ↔ op.change.toJson.nesting ≤ room - 1 := by
  simp only [Operation.toJson, Json.nesting, Json.nestingFields]
  omega

theorem Operation.decode?_toJson {op : Operation} (hroom : 4 ≤ room)
    (hfloat : op.change.all Value.noFloat = true) (honce : op.change.all Value.namesOnce = true) :
    Operation.decode? room op.toJson = if op.toJson.nesting ≤ room then some op else none := by
  have hrecord : Json.record? ["collection", "id", "precondition", "change"] op.toJson =
      some [some (.string op.collection), some (.string op.id),
        some (.string op.precondition.name), some op.change.toJson] := rfl
  have hprecondition : Operation.decodePrecondition? (some (.string op.precondition.name)) =
      some op.precondition := Precondition.ofName?_name op.precondition
  unfold Operation.decode?
  simp only [hrecord, hprecondition, Change.decode?_toJson (by omega : 3 ≤ room - 1) hfloat honce,
    op.nesting_toJson_le_iff (by omega : 1 ≤ room)]
  by_cases hfits : op.change.toJson.nesting ≤ room - 1
  · simp only [if_pos hfits]
  · simp only [if_neg hfits]

theorem Json.nesting_array_map_le_iff {α : Type} {encode : α → Json} {xs : List α}
    (hroom : 1 ≤ room) : (Json.array (xs.map encode)).nesting ≤ room ↔
      ∀ x ∈ xs, (encode x).nesting ≤ room - 1 := by
  have hitems : Json.nestingItems (xs.map encode) ≤ room - 1 ↔
      ∀ x ∈ xs, (encode x).nesting ≤ room - 1 := by
    rw [Json.nestingItems_le_iff, List.forall_mem_map]
  rw [← hitems]
  simp only [Json.nesting]
  omega

theorem Transaction.nesting_toJson_le_iff (ops : Transaction) (hroom : 1 ≤ room) :
    (Transaction.toJson ops).nesting ≤ room ↔ ∀ op ∈ ops, op.toJson.nesting ≤ room - 1 :=
  Json.nesting_array_map_le_iff hroom

theorem Transaction.decode?_toJson {ops : Transaction} (hroom : 5 ≤ room)
    (hfloat : Transaction.all Value.noFloat ops = true)
    (honce : Transaction.all Value.namesOnce ops = true) :
    Transaction.decode? room (Transaction.toJson ops) =
      if (Transaction.toJson ops).nesting ≤ room then some ops else none := by
  have hoperations := Json.mapM_map_eq_ite fun op hop =>
    Operation.decode?_toJson (by omega : 4 ≤ room - 1)
      (List.all_eq_true.1 hfloat op hop) (List.all_eq_true.1 honce op hop)
  simp only [Transaction.nesting_toJson_le_iff ops (by omega : 1 ≤ room)]
  exact hoperations

/-! ## Snapshots -/

namespace Snapshot

theorem decodePending?_toJson {pending : List Transaction} (hroom : 6 ≤ room)
    (hfloat : ∀ ops ∈ pending, Transaction.all Value.noFloat ops = true)
    (honce : ∀ ops ∈ pending, Transaction.all Value.namesOnce ops = true) :
    decodePending? room (some (.array (pending.map Transaction.toJson))) =
      if (Json.array (pending.map Transaction.toJson)).nesting ≤ room then some pending
      else none := by
  have htransactions := Json.mapM_map_eq_ite fun ops hops =>
    Transaction.decode?_toJson (by omega : 5 ≤ room - 1) (hfloat ops hops) (honce ops hops)
  simp only [Json.nesting_array_map_le_iff (by omega : 1 ≤ room)]
  exact htransactions

theorem decodeTable?_entries {α : Type} (decode : Json → Option α) (encode : α → Json)
    (P : α → Prop) [DecidablePred P] {t : Table α}
    (h : ∀ entry ∈ t.entries,
      decode (encode entry.2) = if P entry.2 then some entry.2 else none) :
    decodeTable? decode (.object (t.entries.map fun entry => (entry.1, encode entry.2))) =
      if ∀ entry ∈ t.entries, P entry.2 then some t else none := by
  have hentry : ∀ entry ∈ t.entries,
      (decode (encode entry.2)).map (fun value => (entry.1, value)) =
        if P entry.2 then some entry else none := by
    intro entry hmem
    rw [h entry hmem]
    split <;> rfl
  have hentries : (t.entries.map fun entry => (entry.1, encode entry.2)).mapM
      (fun field => (decode field.2).map fun value => (field.1, value)) =
        if ∀ entry ∈ t.entries, P entry.2 then some t.entries else none :=
    Json.mapM_map_eq_ite hentry
  simp only [decodeTable?, hentries]
  split
  · exact congrArg some t.ofList_entries
  · rfl

theorem nesting_object_map_le_iff {α : Type} (encode : α → Json) {entries : List (String × α)}
    (hroom : 1 ≤ room) :
    (Json.object (entries.map fun entry => (entry.1, encode entry.2))).nesting ≤ room ↔
      ∀ entry ∈ entries, (encode entry.2).nesting ≤ room - 1 := by
  have hfields : Json.nestingFields (entries.map fun entry => (entry.1, encode entry.2)) ≤
      room - 1 ↔ ∀ entry ∈ entries, (encode entry.2).nesting ≤ room - 1 := by
    rw [Json.nestingFields_le_iff, List.forall_mem_map]
  rw [← hfields]
  simp only [Json.nesting]
  omega

theorem nesting_collectionToJson_le_iff (c : Collection) (hroom : 1 ≤ room) :
    (collectionToJson c).nesting ≤ room ↔
      ∀ document ∈ c.entries, document.2.toJson.nesting ≤ room - 1 :=
  nesting_object_map_le_iff Document.toJson hroom

theorem decodeCollection?_toJson {c : Collection} (hroom : 1 ≤ room)
    (hfloat : ∀ document ∈ c.entries, document.2.all Value.noFloat = true)
    (honce : ∀ document ∈ c.entries, document.2.all Value.namesOnce = true) :
    decodeTable? (Document.decode? (room - 1)) (collectionToJson c) =
      if (collectionToJson c).nesting ≤ room then some c else none := by
  have hdocuments := decodeTable?_entries (Document.decode? (room - 1)) Document.toJson
    (fun d => d.toJson.nesting ≤ room - 1) fun document hdocument =>
      Document.decode?_toJson (room - 1) (hfloat document hdocument) (honce document hdocument)
  simp only [nesting_collectionToJson_le_iff c hroom]
  exact hdocuments

def collectionsToJson (cs : Collections) : Json :=
  .object (cs.entries.map fun entry => (entry.1, collectionToJson entry.2))

theorem nesting_collectionsToJson_le_iff (cs : Collections) (hroom : 1 ≤ room) :
    (collectionsToJson cs).nesting ≤ room ↔
      ∀ entry ∈ cs.entries, (collectionToJson entry.2).nesting ≤ room - 1 :=
  nesting_object_map_le_iff collectionToJson hroom

theorem decodeCollections?_toJson {cs : Collections} (hroom : 2 ≤ room)
    (hfloat : ∀ entry ∈ cs.entries, ∀ document ∈ entry.2.entries,
      document.2.all Value.noFloat = true)
    (honce : ∀ entry ∈ cs.entries, ∀ document ∈ entry.2.entries,
      document.2.all Value.namesOnce = true) :
    decodeTable? (decodeTable? (Document.decode? (room - 2))) (collectionsToJson cs) =
      if (collectionsToJson cs).nesting ≤ room then some cs else none := by
  have hcollections := decodeTable?_entries (decodeTable? (Document.decode? (room - 1 - 1)))
    collectionToJson (fun c => (collectionToJson c).nesting ≤ room - 1) fun entry hentry =>
      decodeCollection?_toJson (by omega) (hfloat entry hentry) (honce entry hentry)
  simp only [nesting_collectionsToJson_le_iff cs (by omega : 1 ≤ room)]
  exact hcollections

theorem toJson_of_no_journal {s : Snapshot} (h : s.pending = []) :
    s.toJson = .object [("collections", collectionsToJson s.collections)] := by
  unfold toJson
  rw [h]
  rfl

theorem toJson_of_journal {s : Snapshot} (h : s.pending ≠ []) :
    s.toJson = .object [("collections", collectionsToJson s.collections),
      ("pending", .array (s.pending.map Transaction.toJson))] := by
  unfold toJson
  rw [if_neg h]
  rfl

theorem nesting_toJson_le_iff (s : Snapshot) (hroom : 2 ≤ room) :
    s.toJson.nesting ≤ room ↔
      (collectionsToJson s.collections).nesting ≤ room - 1 ∧
        (Json.array (s.pending.map Transaction.toJson)).nesting ≤ room - 1 := by
  by_cases h : s.pending = []
  · rw [toJson_of_no_journal h, h]
    simp only [Json.nesting, Json.nestingFields, List.map_nil, Json.nestingItems]
    omega
  · rw [toJson_of_journal h]
    generalize Json.array (s.pending.map Transaction.toJson) = journal
    simp only [Json.nesting, Json.nestingFields]
    omega

/-- A document stands three levels down. -/
theorem nesting_of_mem {s : Snapshot} {entry : String × Collection} {document : String × Document}
    (hentry : entry ∈ s.collections.entries) (hdocument : document ∈ entry.2.entries) :
    document.2.toJson.nesting + 3 ≤ s.toJson.nesting := by
  have hcollection : document.2.toJson.nesting < (collectionToJson entry.2).nesting :=
    Json.nesting_lt_of_mem (List.mem_map_of_mem hdocument)
  have hcollections : (collectionToJson entry.2).nesting <
      (collectionsToJson s.collections).nesting :=
    Json.nesting_lt_of_mem (List.mem_map_of_mem hentry)
  have hsnapshot : (collectionsToJson s.collections).nesting < s.toJson.nesting :=
    Json.nesting_lt_of_mem List.mem_cons_self
  omega

/-- A snapshot is read back from its tree if the tree fits the room, and is refused otherwise. -/
theorem decode?_toJson {s : Snapshot} (hroom : 7 ≤ room) (hfloat : s.floatFree = true)
    (honce : s.namesOnce = true) :
    decode? room s.toJson = if s.toJson.nesting ≤ room then some s else none := by
  obtain ⟨hfloats, hfloatPending⟩ := all_iff.1 hfloat
  obtain ⟨honces, honcePending⟩ := all_iff.1 honce
  have hcollections := decodeCollections?_toJson (by omega : 2 ≤ room - 1) hfloats honces
  rw [Nat.sub_sub] at hcollections
  have hjournal := decodePending?_toJson (by omega : 6 ≤ room - 1) hfloatPending honcePending
  -- what the record has for the journal decodes to the journal, also when it is left out
  have hrecord : ∃ written, Json.record? ["collections", "pending"] s.toJson =
        some [some (collectionsToJson s.collections), written] ∧
      decodePending? (room - 1) written =
        if (Json.array (s.pending.map Transaction.toJson)).nesting ≤ room - 1 then some s.pending
        else none := by
    by_cases h : s.pending = []
    · have hfits : (Json.array (s.pending.map Transaction.toJson)).nesting ≤ room - 1 := by
        rw [h]
        change 1 ≤ room - 1
        omega
      refine ⟨none, by rw [toJson_of_no_journal h]; rfl, ?_⟩
      rw [if_pos hfits, h]
      rfl
    · exact ⟨_, by rw [toJson_of_journal h]; rfl, hjournal⟩
  obtain ⟨written, hrecord, hpending⟩ := hrecord
  unfold decode?
  simp only [hrecord, hcollections, hpending, s.nesting_toJson_le_iff (by omega : 2 ≤ room)]
  by_cases hfits : (collectionsToJson s.collections).nesting ≤ room - 1
  · by_cases hfit : (Json.array (s.pending.map Transaction.toJson)).nesting ≤ room - 1
    · simp only [if_pos hfits, if_pos hfit, if_pos (And.intro hfits hfit)]
    · simp only [if_pos hfits, if_neg hfit, if_neg fun h : _ ∧ _ => hfit h.2]
  · simp only [if_neg hfits, if_neg fun h : _ ∧ _ => hfits h.1]

end Snapshot

end

/-! ## Texts -/

theorem Update.wellFormed_toJson {u : Update} (hfloat : u.set.all Value.noFloat = true) :
    u.toJson.WellFormed := by
  have hstrings : Json.WellFormedItems (u.unset.map .string) :=
    Json.wellFormedItems_iff.2 fun item hitem => by
      obtain ⟨s, -, rfl⟩ := List.mem_map.1 hitem
      trivial
  exact ⟨Value.wellFormed_toJson (.ofDocument u.set) hfloat, hstrings, trivial⟩

theorem Change.wellFormed_toJson {c : Change} (hfloat : c.all Value.noFloat = true) :
    c.toJson.WellFormed := by
  cases c with
  | insert body => exact ⟨Value.wellFormed_toJson (.ofDocument body) hfloat, trivial⟩
  | update changes => exact ⟨Update.wellFormed_toJson hfloat, trivial⟩
  | remove => trivial

theorem Transaction.wellFormed_toJson {ops : Transaction}
    (hfloat : Transaction.all Value.noFloat ops = true) :
    (Transaction.toJson ops).WellFormed :=
  Json.wellFormedItems_iff.2 fun item hitem => by
    obtain ⟨op, hop, rfl⟩ := List.mem_map.1 hitem
    exact ⟨trivial, trivial, trivial,
      Change.wellFormed_toJson (List.all_eq_true.1 hfloat op hop), trivial⟩

namespace Snapshot

theorem wellFormed_toJson {s : Snapshot} (hfloat : s.floatFree = true) : s.toJson.WellFormed := by
  obtain ⟨hfloats, hfloatPending⟩ := all_iff.1 hfloat
  have hcollections : (collectionsToJson s.collections).WellFormed := by
    refine Json.wellFormedFields_iff.2 fun field hfield => ?_
    obtain ⟨entry, hentry, rfl⟩ := List.mem_map.1 hfield
    refine Json.wellFormedFields_iff.2 fun inner hinner => ?_
    obtain ⟨document, hdocument, rfl⟩ := List.mem_map.1 hinner
    exact Value.wellFormed_toJson (.ofDocument document.2) (hfloats entry hentry document hdocument)
  refine Json.wellFormedFields_iff.2 fun field hfield => ?_
  rcases List.mem_cons.1 hfield with rfl | hjournal
  · exact hcollections
  · split at hjournal
    · cases hjournal
    · rw [List.mem_singleton.1 hjournal]
      refine Json.wellFormedItems_iff.2 fun item hitem => ?_
      obtain ⟨ops, hops, rfl⟩ := List.mem_map.1 hitem
      exact Transaction.wellFormed_toJson (hfloatPending ops hops)

/-- The text of a snapshot's file is the snapshot if it nests no deeper than a text may, and no
snapshot at all if it does. -/
theorem parse?_fileText_eq_ite {s : Snapshot} (hfloat : s.floatFree = true)
    (honce : s.namesOnce = true) :
    parse? s.fileText = if s.toJson.nesting ≤ Json.room then some s else none := by
  unfold parse? fileText
  rw [Json.parse?_indented (wellFormed_toJson hfloat)]
  exact decode?_toJson (by decide) hfloat honce

/-- A snapshot without binary64 numbers that nests fewer than 128 deep is what its file's text
decodes to, and so what a store opened from that file holds. -/
theorem decoded_from_file_text {s : Snapshot} (hfloat : s.floatFree = true)
    (honce : s.namesOnce = true) (hnesting : s.toJson.nesting < 128) :
    parse? s.fileText = some s ∧
      ∀ (path : String) (disk : Disk), disk.read? path = some s.fileText.toUTF8 →
        FileStore.openAt path disk = .ok ⟨path, s⟩ := by
  have hroom : s.toJson.nesting ≤ Json.room := Nat.le_of_lt_succ hnesting
  have hparse : parse? s.fileText = some s := by
    rw [parse?_fileText_eq_ite hfloat honce, if_pos hroom]
  refine ⟨hparse, fun path disk hread => ?_⟩
  unfold FileStore.openAt
  simp only [hread, Text.fromUTF8?_toUTF8, Option.bind_some, hparse]

def mixed : Snapshot where
  collections := Table.ofList
    [("units", Table.ofList
        [("u/1", ⟨[("_id", .string "u/1"), ("z", .int Int64.minValue), ("a", .int Int64.maxValue),
          ("deep", .document [("b", .list [.null, .bool true, .document []]), ("a", .string "")])]⟩),
          ("\"\\\n\x01é", ⟨[("_id", .string "\"\\\n\x01é")]⟩)]),
      ("empty", Table.empty)]
  pending :=
    [[⟨"units", "u/1", .mustExist, .update ⟨⟨[("x.y", .int 0), ("x", .list [])]⟩, ["z", "a.b"]⟩⟩,
        ⟨"empty", "", .mustNotExist, .insert ⟨[("k", .bool false), ("_id", .null)]⟩⟩],
      [], [⟨"", "u", .none, .remove⟩]]

theorem mixed_decoded_from_file_text :
    (mixed.floatFree = true ∧ mixed.namesOnce = true ∧ mixed.toJson.nesting = 8) ∧
      parse? mixed.fileText = some mixed := by
  have hfloat : mixed.floatFree = true := by decide +kernel
  have honce : mixed.namesOnce = true := by decide +kernel
  have hnesting : mixed.toJson.nesting = 8 := by decide +kernel
  exact ⟨⟨hfloat, honce, hnesting⟩,
    (decoded_from_file_text hfloat honce (by rw [hnesting]; decide)).1⟩

end Snapshot

end FleetUpgrade
