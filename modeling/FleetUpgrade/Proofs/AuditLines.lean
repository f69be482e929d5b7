import FleetUpgrade.Audit.Log
import FleetUpgrade.Proofs.CompactJson
import FleetUpgrade.Proofs.DiskFrame
import FleetUpgrade.Proofs.Except
import FleetUpgrade.Proofs.SnapshotText
import FleetUpgrade.Proofs.TextParts

/-! # Reading an audit file back

A record without binary64 numbers is read back from its compact text if its tree
nests at most as deep as a whole text may. The text stands on one line, so the
records of a file are told apart by its line feeds alone. A log that writes at the
end of its file puts each record behind the others there, so the file holds the
lines of all records that the log was given, in their order.
-/

namespace FleetUpgrade

theorem OperationKind.ofName?_name (k : OperationKind) : ofName? k.name = some k := by
  cases k <;> rfl

namespace AuditRecord

/-! ## One record -/

/-- A record whose tree can be decoded: it has no binary64 numbers, its documents have each name
once, and a text has room for it. -/
structure Readable (r : AuditRecord) : Prop where
  noFloat : r.fields.set.all Value.noFloat = true
  namesOnce : r.fields.set.all Value.namesOnce = true
  nesting_lt : r.toJson.nesting < 128

instance : DecidablePred Readable := fun r =>
  decidable_of_iff (r.fields.set.all Value.noFloat = true ∧
    r.fields.set.all Value.namesOnce = true ∧ r.toJson.nesting < 128)
    ⟨fun h => ⟨h.1, h.2.1, h.2.2⟩, fun h => ⟨h.noFloat, h.namesOnce, h.nesting_lt⟩⟩

variable {r : AuditRecord} {room : Nat}

theorem nesting_toJson_le_iff (r : AuditRecord) (hroom : 1 ≤ room) :
    r.toJson.nesting ≤ room ↔ r.fields.toJson.nesting ≤ room - 1 := by
  simp only [toJson, Json.nesting, Json.nestingFields]
  omega

/-- A record is read back from its tree if the tree fits the room, and is refused otherwise. -/
theorem decode?_toJson (hroom : 3 ≤ room) (hfloat : r.fields.set.all Value.noFloat = true)
    (honce : r.fields.set.all Value.namesOnce = true) :
    decode? room r.toJson = if r.toJson.nesting ≤ room then some r else none := by
  have hrecord :
      Json.record? ["collection", "id", "operationKind", "precondition", "fields"] r.toJson =
        some [some (.string r.collection), some (.string r.id), some (.string r.kind.name),
          some (.string r.precondition.name), some r.fields.toJson] := rfl
  have hkind : (Json.string r.kind.name).plainVariant?.bind OperationKind.ofName? = some r.kind :=
    r.kind.ofName?_name
  have hprecondition : (Json.string r.precondition.name).plainVariant?.bind
      Precondition.ofName? = some r.precondition := r.precondition.ofName?_name
  unfold decode?
  simp only [hrecord, hkind, hprecondition,
    Update.decode?_toJson (by omega : 2 ≤ room - 1) hfloat honce,
    r.nesting_toJson_le_iff (by omega : 1 ≤ room)]
  by_cases hfits : r.fields.toJson.nesting ≤ room - 1
  · simp only [if_pos hfits]
  · simp only [if_neg hfits]

theorem wellFormed_toJson (hfloat : r.fields.set.all Value.noFloat = true) :
    r.toJson.WellFormed :=
  ⟨trivial, trivial, trivial, trivial, Update.wellFormed_toJson hfloat, trivial⟩

theorem Readable.parse?_jsonText (h : r.Readable) : parse? r.jsonText = some r := by
  have hroom : r.toJson.nesting ≤ Json.room := Nat.le_of_lt_succ h.nesting_lt
  unfold parse? jsonText
  rw [Json.parse?_compact (wellFormed_toJson h.noFloat), Option.bind_some,
    decode?_toJson (by decide) h.noFloat h.namesOnce, if_pos hroom]

theorem lineFeed_not_mem_jsonText (r : AuditRecord) : '\n' ∉ r.jsonText.toList :=
  r.toJson.lineFeed_not_mem_compact

/-! ## The lines of records -/

def linesText (records : List AuditRecord) : String :=
  String.join (records.map line)

theorem linesText_cons (r : AuditRecord) (records : List AuditRecord) :
    linesText (r :: records) = r.line ++ linesText records :=
  String.join_cons

/-- Each record has one line, and nothing else does. -/
theorem lines_linesText (records : List AuditRecord) :
    Text.lines (linesText records) = records.map jsonText ++ [""] := by
  have hone : ∀ text ∈ records.map jsonText, '\n' ∉ text.toList :=
    List.forall_mem_map.2 fun r _ => r.lineFeed_not_mem_jsonText
  have hlines := Text.lines_join_of_not_mem hone
  rwa [List.map_map] at hlines

theorem parseLines?_eq_some {text : String} {records : List AuditRecord}
    (hlines : Text.lines text = records.map jsonText ++ [""])
    (h : ∀ r ∈ records, r.Readable) : parseLines? text = some records := by
  have hsegments : Text.segments '\n' text.toList =
      records.map (fun r => r.jsonText.toList) ++ [[]] := by
    have hchars := congrArg (List.map String.toList) hlines
    simpa [Text.lines, Function.comp_def] using hchars
  have hdecode : (records.map fun r => r.jsonText.toList).mapM
      (fun line => parse? (String.ofList line)) = some records := by
    rw [List.mapM_eq_some_iff_map, List.map_map]
    exact List.map_congr_left fun r hr => by
      rw [Function.comp_apply, String.ofList_toList, (h r hr).parse?_jsonText]
  unfold parseLines?
  simp only [hsegments, List.getLast?_concat, List.dropLast_concat, if_true, hdecode]

end AuditRecord

/-! ## A log and its file -/

theorem overwrite_size (bytes contents : ByteArray) :
    overwrite contents.size bytes contents = contents ++ bytes := by
  have hrest : contents.extract (contents.size + bytes.size) contents.size = .empty :=
    ByteArray.extract_eq_empty_iff.2 (by omega)
  have hgap : (⟨Array.replicate (contents.size - contents.size) 0⟩ : ByteArray) = .empty := by
    rw [Nat.sub_self]
    rfl
  unfold overwrite
  rw [ByteArray.extract_zero_size, hgap, hrest, ByteArray.append_empty, ByteArray.append_empty]

theorem Disk.contents_of_write? {d d' : Disk} {path : String} {loc : Location} {number mode : Nat}
    {written contents : ByteArray} (h : d.write? path written = some d')
    (hloc : d.locate path = some loc) (he : d'.entry? loc = some (.file number contents mode)) :
    contents = written := by
  have hroot : loc ≠ .root := by
    rintro rfl
    exact nomatch he
  obtain ⟨other, hother, hcases⟩ := Disk.write?_spec h
  obtain rfl : other = loc := Option.some.inj (hother.symm.trans hloc)
  rcases hcases with ⟨_, _, _, -, -, rfl⟩ | ⟨-, -, rfl⟩
  · rw [Disk.entry?_withEntry _ _ hroot, if_pos rfl] at he
    injection he with he
    injection he with _ hcontents _
    exact hcontents.symm
  · have hnew : Disk.entry? (d.withNewFile other written) other =
        some (.file d.made written Disk.newFileMode) :=
      (Disk.entry?_withEntry d _ hroot).trans (if_pos rfl)
    injection hnew.symm.trans he with he
    injection he with _ hcontents _
    exact hcontents.symm

def AuditSink.recordAll {α : Type} [AuditSink α] :
    List AuditRecord → α → Disk → Bool × α × Disk
  | [], sink, disk => (true, sink, disk)
  | r :: records, sink, disk =>
      match AuditSink.record r sink disk with
      | (true, sink, disk) => recordAll records sink disk
      | (false, sink, disk) => (false, sink, disk)

namespace AuditLog

/-- The log takes every record and writes at the end of the file at a location, which so far has
these contents. -/
structure Appends (log : AuditLog) (disk : Disk) (loc : Location) (contents : ByteArray) :
    Prop where
  unbounded : log.capacity = none
  at_end : ∃ file mode, log.file = some file ∧ file.position = contents.size ∧
    disk.fileAt loc = some (file.number, contents, mode)

variable {log : AuditLog} {disk : Disk} {loc : Location} {contents : ByteArray}

theorem appends_of_create? {before : Disk} {path : String} {file : OpenFile}
    (h : before.create? path = some (file, disk)) :
    ∃ loc, before.locate path = some loc ∧ Appends ⟨[], none, some file⟩ disk loc .empty := by
  unfold Disk.create? at h
  obtain ⟨loc, hloc, h⟩ := Option.bind_eq_some_iff.1 h
  obtain ⟨ready, hwrite, h⟩ := Option.bind_eq_some_iff.1 h
  cases he : ready.entry? loc with
  | none => simp [he] at h
  | some e =>
      cases e with
      | directory => simp [he] at h
      | file number contents mode =>
          simp only [he, Option.some.injEq, Prod.mk.injEq] at h
          obtain ⟨rfl, rfl⟩ := h
          have hempty : contents = .empty := Disk.contents_of_write? hwrite hloc he
          subst hempty
          exact ⟨loc, hloc, rfl, _, mode, rfl, rfl, (Disk.fileAt_eq_some_iff ..).2 he⟩

theorem Appends.record (h : log.Appends disk loc contents) (r : AuditRecord) :
    ∃ log' disk', AuditSink.record r log disk = (true, log', disk') ∧
      log'.Appends disk' loc (contents ++ r.line.toUTF8) := by
  obtain ⟨hfree, file, mode, hfile, hend, hat⟩ := h
  have hfull : log.isFull = false := by rw [isFull, hfree]
  let written := disk.writeTo file r.line.toUTF8
  refine ⟨{ log with records := log.records ++ [r], file := some written.1 }, written.2, ?_,
    hfree, written.1, mode, rfl, ?_, ?_⟩
  · simp only [AuditSink.record, record?, hfull, hfile, Bool.false_eq_true, if_false, written]
  · rw [ByteArray.size_append, ← hend]
    rfl
  · rw [Disk.fileAt_writeTo, hat, Option.map_some, Disk.overwritten, if_pos rfl, hend,
      overwrite_size]
    rfl

theorem Appends.recordAll (h : log.Appends disk loc contents) (records : List AuditRecord) :
    ∃ log' disk', AuditSink.recordAll records log disk = (true, log', disk') ∧
      log'.Appends disk' loc (contents ++ (AuditRecord.linesText records).toUTF8) := by
  induction records generalizing log disk contents with
  | nil =>
      have hnone : contents ++ (AuditRecord.linesText []).toUTF8 = contents :=
        ByteArray.append_empty
      exact ⟨log, disk, rfl, by rwa [hnone]⟩
  | cons r records ih =>
      obtain ⟨next, between, hrecord, hnext⟩ := h.record r
      obtain ⟨log', disk', hrest, hlast⟩ := ih hnext
      have hbytes : (AuditRecord.linesText (r :: records)).toUTF8 =
          r.line.toUTF8 ++ (AuditRecord.linesText records).toUTF8 := by
        rw [AuditRecord.linesText_cons]
        exact String.toByteArray_append
      refine ⟨log', disk', by simp only [AuditSink.recordAll, hrecord, hrest], ?_⟩
      rwa [hbytes, ← ByteArray.append_assoc]

/-- All records given to a log are in its file behind what was there: each on one line of its own,
whatever it holds. Readable records are read back from the lines as they are. -/
theorem file_read_back (h : log.Appends disk loc contents) (records : List AuditRecord) :
    ∃ log' disk' text, AuditSink.recordAll records log disk = (true, log', disk') ∧
      log'.Appends disk' loc (contents ++ text.toUTF8) ∧
      Text.lines text = records.map AuditRecord.jsonText ++ [""] ∧
      ((∀ r ∈ records, r.Readable) → AuditRecord.parseLines? text = some records) := by
  obtain ⟨log', disk', hrecorded, happends⟩ := h.recordAll records
  have hlines := AuditRecord.lines_linesText records
  exact ⟨log', disk', AuditRecord.linesText records, hrecorded, happends, hlines,
    AuditRecord.parseLines?_eq_some hlines⟩

/-- Line feeds, quotes and controls in names, ids and values, behind what the file held before. -/
theorem file_read_back_past_line_feeds :
    let records : List AuditRecord :=
      [⟨"uni\nts", "\"u\\1\"", .update, .mustExist,
          ⟨⟨[("b\n", .string "\r\n\x01"), ("a", .int (-3))]⟩, ["old\nname"]⟩⟩,
        ⟨"services", "\n", .remove, .mustExist, .empty⟩,
        ⟨"leases", "", .insert, .mustNotExist,
          ⟨⟨[("n", .list [.null, .document [("\n", .bool true)]])]⟩, []⟩⟩]
    ∃ log' disk' text,
      AuditSink.recordAll records ⟨[], none, some ⟨0, 4⟩⟩
          ⟨[("/audit", .file 0 "old\n".toUTF8 0o644)], .root, [], 1⟩ = (true, log', disk') ∧
        Appends log' disk' "/audit" ("old\n".toUTF8 ++ text.toUTF8) ∧
        Text.lines text = records.map AuditRecord.jsonText ++ [""] ∧
        AuditRecord.parseLines? text = some records := by
  intro records
  have happends : Appends ⟨[], none, some ⟨0, 4⟩⟩
      ⟨[("/audit", .file 0 "old\n".toUTF8 0o644)], .root, [], 1⟩ "/audit" "old\n".toUTF8 :=
    ⟨rfl, ⟨0, 4⟩, 0o644, rfl, by decide +kernel, (Disk.fileAt_eq_some_iff ..).2 rfl⟩
  obtain ⟨log', disk', text, hrecorded, hfile, hlines, hread⟩ := file_read_back happends records
  exact ⟨log', disk', text, hrecorded, hfile, hlines, hread (by decide +kernel)⟩

end AuditLog

end FleetUpgrade
