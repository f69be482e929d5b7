import FleetUpgrade.Proofs.AtomicWrite

/-! # What a crash leaves of a transaction

A store in a file writes a transaction's record, applies the transaction and
writes the outcome without the record. `Crashed` says on which disks this can be
cut off. A transaction that the snapshot takes is always recovered; one that it
refuses is not, once its record was written and the outcome was not.
-/

namespace FleetUpgrade

theorem Text.fromUTF8?_toUTF8 (text : String) : String.fromUTF8? text.toUTF8 = some text :=
  dif_pos text.isValidUTF8

namespace FileStore

/-- The disks that a write of a snapshot can leave when it is cut off: the file that is written can
have any part of its contents, and the move happens at once. -/
inductive Interrupted (path : String) (s : Snapshot) (disk : Disk) : Disk → Prop
  | untouched : Interrupted path s disk disk
  | torn (n : Nat) {written : Disk}
      (h : disk.write? (temporaryPath path) (s.fileText.toUTF8.extract 0 n) = some written) :
      Interrupted path s disk written
  | moved {replaced : Disk} (h : persist path s disk = (.ok (), replaced)) :
      Interrupted path s disk replaced

/-- The snapshot that the second write of a transaction puts in place. -/
def settled (ops : Transaction) (f : FileStore) : Snapshot :=
  match f.snapshot.apply ops with
  | .ok s => s
  | .error _ => f.snapshot

/-- The disks that applying a transaction can leave when it is cut off. -/
inductive Crashed (ops : Transaction) (f : FileStore) (disk : Disk) : Disk → Prop
  | recording {crashed : Disk} (h : Interrupted f.path (f.snapshot.stage ops) disk crashed) :
      Crashed ops f disk crashed
  | settling {recorded crashed : Disk}
      (hrecord : persist f.path (f.snapshot.stage ops) disk = (.ok (), recorded))
      (h : Interrupted f.path (f.settled ops) recorded crashed) : Crashed ops f disk crashed

/-- The file opens, its journal is resumed and emptied, and the collections are those from before
the transaction or those that it makes; the file then holds the same. -/
def Recovers (ops : Transaction) (f : FileStore) (crashed : Disk) : Prop :=
  ∃ g, openAt f.path crashed = .ok g ∧
    (resume g crashed).result = .ok () ∧
    (resume g crashed).store.snapshot.pending = [] ∧
    ((resume g crashed).store.snapshot.collections = f.snapshot.collections ∨
      ∃ s, f.snapshot.apply ops = .ok s ∧
        (resume g crashed).store.snapshot.collections = s.collections) ∧
    openAt f.path (resume g crashed).disk = .ok (resume g crashed).store

/-- The file opens with the transaction in its journal, resuming is refused, and the file then
opens to the same again. -/
def Stuck (ops : Transaction) (refused : StoreError) (f : FileStore) (crashed : Disk) : Prop :=
  openAt f.path crashed = .ok ⟨f.path, f.snapshot.stage ops⟩ ∧
    (resume ⟨f.path, f.snapshot.stage ops⟩ crashed).result = .error refused ∧
    openAt f.path (resume ⟨f.path, f.snapshot.stage ops⟩ crashed).disk =
      .ok ⟨f.path, f.snapshot.stage ops⟩

/-! ## Opening -/

section

variable {path : String} {s : Snapshot} {f : FileStore} {disk other crashed replaced : Disk}

theorem openAt_of_read? (h : other.read? path = disk.read? path) :
    openAt path other = openAt path disk := by
  unfold openAt
  rw [h]

theorem openAt_written (h : disk.read? path = some s.fileText.toUTF8)
    (hcodec : Snapshot.parse? s.fileText = some s) : openAt path disk = .ok ⟨path, s⟩ := by
  unfold openAt
  simp only [h, Text.fromUTF8?_toUTF8, Option.bind_some, hcodec]

theorem located_of_openAt (h : openAt path disk = .ok f) :
    disk.locate path = some (disk.place path) ∧ (disk.fileAt (disk.place path)).isSome := by
  unfold openAt at h
  cases hread : disk.read? path with
  | none => simp [hread] at h
  | some contents =>
      cases hloc : disk.locate path with
      | none => simp [Disk.read?, hloc] at hread
      | some loc =>
          obtain rfl := Disk.locate_eq_place hloc
          refine ⟨rfl, ?_⟩
          rw [Disk.read?_of_locate hloc] at hread
          obtain ⟨file, hfile, -⟩ := Option.bind_eq_some_iff.1 hread
          rw [hfile]
          rfl

theorem apart_of_located {loc : Location} (h : disk.locate path = some loc) :
    disk.place (temporaryPath path) ≠ disk.place path := by
  apply place_temporaryPath
  unfold Disk.locate at h
  split at h
  · cases h
  · next hfile =>
      simp only [Bool.or_eq_true, not_or, Bool.not_eq_true] at hfile
      exact hfile.1

/-! ## One write -/

theorem persist_of_replaceable (h : disk.Replaceable (temporaryPath path) path) (s : Snapshot) :
    ∃ replaced, persist path s disk = (.ok (), replaced) ∧
      replaced.Replaceable (temporaryPath path) path ∧
      replaced.read? path = some s.fileText.toUTF8 := by
  obtain ⟨written, number, mode, hwrite, hwritten, hmay, hfile, -⟩ := h.write s.fileText.toUTF8
  obtain ⟨replaced, hmove, hreplaced, hfile⟩ := hwritten.rename hfile
  refine ⟨replaced, ?_, hreplaced, ?_⟩
  · unfold persist
    simp only [hwrite, hmove]
  · rw [Disk.read?_of_locate hreplaced.target_located, hfile, Option.bind_some]
    exact if_pos hmay

theorem replaceable_of_persist (hopen : openAt path disk = .ok f)
    (hstale : ∀ file ∈ disk.fileAt (disk.place (temporaryPath path)),
      Disk.mayRead file.2.2 = true)
    (h : persist path s disk = (.ok (), replaced)) :
    disk.Replaceable (temporaryPath path) path := by
  obtain ⟨hlocated, hthere⟩ := located_of_openAt hopen
  obtain ⟨written, hwrite, hmove⟩ := persist_spec h
  exact .of_moved hlocated hthere (apart_of_located hlocated) hstale hwrite hmove

theorem openAt_of_write? {contents : ByteArray} (hopen : openAt path disk = .ok f)
    (h : disk.write? (temporaryPath path) contents = some other) : openAt path other = .ok f := by
  obtain ⟨hlocated, -⟩ := located_of_openAt hopen
  have hspares := Disk.spares_write? h (apart_of_located hlocated)
  rw [openAt_of_read?, hopen]
  rw [Disk.read?_of_locate (Disk.locate_mono hspares.here hspares.directories hlocated),
    Disk.read?_of_locate hlocated, hspares.file]

namespace Interrupted

theorem of_persist (path : String) (s : Snapshot) (disk : Disk) :
    Interrupted path s disk (persist path s disk).2 := by
  cases hwrite : disk.write? (temporaryPath path) s.fileText.toUTF8 with
  | none =>
      have hleft : (persist path s disk).2 = disk := by
        unfold persist
        simp only [hwrite]
      rw [hleft]
      exact .untouched
  | some written =>
      cases hmove : written.rename? (temporaryPath path) path with
      | none =>
          have hleft : (persist path s disk).2 = written := by
            unfold persist
            simp only [hwrite, hmove]
          have hwhole : s.fileText.toUTF8.extract 0 s.fileText.toUTF8.size = s.fileText.toUTF8 :=
            ByteArray.extract_zero_size
          rw [hleft]
          refine .torn s.fileText.toUTF8.size ?_
          rw [hwhole, hwrite]
      | some replaced =>
          refine .moved (Prod.ext ?_ rfl)
          unfold persist
          simp only [hwrite, hmove]

/-- A write that is cut off leaves the old snapshot or the new one. -/
theorem opens (h : Interrupted path s disk crashed) (hopen : openAt path disk = .ok f)
    (hstale : ∀ file ∈ disk.fileAt (disk.place (temporaryPath path)),
      Disk.mayRead file.2.2 = true)
    (hcodec : Snapshot.parse? s.fileText = some s) :
    openAt path crashed = .ok f ∨
      (persist path s disk = (.ok (), crashed) ∧ openAt path crashed = .ok ⟨path, s⟩) := by
  cases h with
  | untouched => exact Or.inl hopen
  | torn n hwrite => exact Or.inl (openAt_of_write? hopen hwrite)
  | moved hpersist =>
      obtain ⟨replaced, hdone, -, hread⟩ :=
        persist_of_replaceable (replaceable_of_persist hopen hstale hpersist) s
      rw [hpersist] at hdone
      cases hdone
      exact Or.inr ⟨hpersist, openAt_written hread hcodec⟩

theorem replaceable (h : Interrupted path s disk crashed)
    (hdisk : disk.Replaceable (temporaryPath path) path) :
    crashed.Replaceable (temporaryPath path) path := by
  cases h with
  | untouched => exact hdisk
  | torn n hwrite =>
      obtain ⟨written, -, -, hdone, hwritten, -⟩ := hdisk.write (s.fileText.toUTF8.extract 0 n)
      rw [hwrite] at hdone
      cases hdone
      exact hwritten
  | moved hpersist =>
      obtain ⟨replaced, hdone, hreplaced, -⟩ := persist_of_replaceable hdisk s
      rw [hpersist] at hdone
      cases hdone
      exact hreplaced

end Interrupted

end

/-! ## Resuming what is left -/

section

variable {ops : Transaction} {f : FileStore} {disk crashed recorded : Disk} {s : Snapshot}
  {refused : StoreError}

theorem pending_of_apply (h : f.snapshot.apply ops = .ok s) : s.pending = f.snapshot.pending := by
  unfold Snapshot.apply at h
  split at h
  · cases h
  · cases h
    rfl

theorem settled_of_ok (h : f.snapshot.apply ops = .ok s) : f.settled ops = s := by
  unfold settled
  rw [h]

theorem settled_of_error (h : f.snapshot.apply ops = .error refused) :
    f.settled ops = f.snapshot := by
  unfold settled
  rw [h]

theorem resume_of_no_journal {g : FileStore} (h : g.snapshot.pending = []) :
    resume g crashed = ⟨.ok (), g, crashed⟩ :=
  if_pos h

theorem resume_stage (hempty : f.snapshot.pending = []) :
    (f.snapshot.stage ops).resume =
      match f.snapshot.apply ops with
      | .ok s => (.ok 1, s)
      | .error refused => (.error refused, f.snapshot.stage ops) := by
  obtain ⟨path, cs, pending⟩ := f
  subst hempty
  change Snapshot.resumeFrom cs [ops] = _
  unfold Snapshot.resumeFrom Snapshot.apply
  dsimp only
  cases ops.applyTo cs with
  | error refused => rfl
  | ok cs' => rfl

theorem resume_recorded (hdisk : crashed.Replaceable (temporaryPath f.path) f.path) :
    ∃ after, (resume ⟨f.path, f.snapshot.stage ops⟩ crashed) =
        ⟨(f.snapshot.stage ops).resume.1.map fun _ => (),
          ⟨f.path, (f.snapshot.stage ops).resume.2⟩, after⟩ ∧
      after.read? f.path = some (f.snapshot.stage ops).resume.2.fileText.toUTF8 := by
  obtain ⟨after, hpersist, -, hread⟩ :=
    persist_of_replaceable hdisk (f.snapshot.stage ops).resume.2
  refine ⟨after, ?_, hread⟩
  have hsome : (f.snapshot.stage ops).pending ≠ [] := by simp [Snapshot.stage]
  unfold resume resumeWith
  rw [if_neg hsome]
  simp only [hpersist]

theorem recovers_of_settled (hempty : f.snapshot.pending = [])
    (hopen : openAt f.path crashed = .ok ⟨f.path, s⟩)
    (hs : s = f.snapshot ∨ f.snapshot.apply ops = .ok s) : Recovers ops f crashed := by
  have hnone : s.pending = [] := by
    rcases hs with rfl | happly
    · exact hempty
    · rw [pending_of_apply happly, hempty]
  refine ⟨⟨f.path, s⟩, hopen, ?_⟩
  rw [resume_of_no_journal hnone]
  refine ⟨rfl, hnone, ?_, hopen⟩
  rcases hs with rfl | happly
  · exact Or.inl rfl
  · exact Or.inr ⟨s, happly, rfl⟩

theorem recovers_of_recorded (hempty : f.snapshot.pending = [])
    (hdisk : crashed.Replaceable (temporaryPath f.path) f.path)
    (hopen : openAt f.path crashed = .ok ⟨f.path, f.snapshot.stage ops⟩)
    (happly : f.snapshot.apply ops = .ok s) (hcodec : Snapshot.parse? s.fileText = some s) :
    Recovers ops f crashed := by
  obtain ⟨after, hresume, hread⟩ := @resume_recorded ops f crashed hdisk
  have hone : (f.snapshot.stage ops).resume = (.ok 1, s) := by rw [resume_stage hempty, happly]
  rw [hone] at hresume hread
  refine ⟨_, hopen, ?_⟩
  rw [hresume]
  refine ⟨rfl, ?_, Or.inr ⟨s, happly, rfl⟩, openAt_written hread hcodec⟩
  rw [pending_of_apply happly, hempty]

theorem stuck_of_recorded (hempty : f.snapshot.pending = [])
    (hdisk : crashed.Replaceable (temporaryPath f.path) f.path)
    (hopen : openAt f.path crashed = .ok ⟨f.path, f.snapshot.stage ops⟩)
    (happly : f.snapshot.apply ops = .error refused)
    (hcodec : Snapshot.parse? (f.snapshot.stage ops).fileText = some (f.snapshot.stage ops)) :
    Stuck ops refused f crashed := by
  obtain ⟨after, hresume, hread⟩ := @resume_recorded ops f crashed hdisk
  have hnone : (f.snapshot.stage ops).resume = (.error refused, f.snapshot.stage ops) := by
    rw [resume_stage hempty, happly]
  rw [hnone] at hresume hread
  refine ⟨hopen, ?_⟩
  rw [hresume]
  exact ⟨rfl, openAt_written hread hcodec⟩

theorem not_recovers_of_stuck (h : Stuck ops refused f crashed) : ¬ Recovers ops f crashed := by
  rintro ⟨g, hopen, hresult, -⟩
  obtain ⟨hstage, herror, -⟩ := h
  rw [hstage] at hopen
  cases hopen
  rw [herror] at hresult
  cases hresult

/-- Once the record is written, it can be written over, and the file opens with it. -/
theorem opens_of_recorded (hopen : openAt f.path disk = .ok f)
    (hstale : ∀ file ∈ disk.fileAt (disk.place (temporaryPath f.path)),
      Disk.mayRead file.2.2 = true)
    (hcodec : Snapshot.parse? (f.snapshot.stage ops).fileText = some (f.snapshot.stage ops))
    (h : persist f.path (f.snapshot.stage ops) disk = (.ok (), recorded)) :
    recorded.Replaceable (temporaryPath f.path) f.path ∧
      openAt f.path recorded = .ok ⟨f.path, f.snapshot.stage ops⟩ := by
  have hdisk := replaceable_of_persist hopen hstale h
  obtain ⟨_, hdone, hagain, hread⟩ := persist_of_replaceable hdisk (f.snapshot.stage ops)
  rw [h] at hdone
  cases hdone
  exact ⟨hagain, openAt_written hread hcodec⟩

namespace Crashed

theorem of_apply (ops : Transaction) (f : FileStore) (disk : Disk) :
    Crashed ops f disk (apply ops f disk).disk := by
  have hrecording := Interrupted.of_persist f.path (f.snapshot.stage ops) disk
  cases hp : persist f.path (f.snapshot.stage ops) disk with
  | mk first recorded =>
      rw [hp] at hrecording
      cases first with
      | error e =>
          have hleft : (apply ops f disk).disk = recorded := by
            unfold apply applyWith
            rw [hp]
          rw [hleft]
          exact .recording hrecording
      | ok =>
          have hleft : (apply ops f disk).disk = (persist f.path (f.settled ops) recorded).2 := by
            unfold apply applyWith settled
            rw [hp]
            cases f.snapshot.apply ops with
            | error refused =>
                dsimp only
                cases persist f.path f.snapshot recorded with
                | mk last settled => cases last <;> rfl
            | ok s =>
                dsimp only
                cases persist f.path s recorded with
                | mk last settled => cases last <;> rfl
          rw [hleft]
          exact .settling hp (.of_persist f.path (f.settled ops) recorded)

/-- A crashed store is the one from before, one with the transaction in its journal on a disk that
can be written again, or one with the outcome. -/
theorem opens (hopen : openAt f.path disk = .ok f)
    (hstale : ∀ file ∈ disk.fileAt (disk.place (temporaryPath f.path)),
      Disk.mayRead file.2.2 = true)
    (hcodec : ∀ t ∈ [f.snapshot.stage ops, f.settled ops], Snapshot.parse? t.fileText = some t)
    (h : Crashed ops f disk crashed) :
    openAt f.path crashed = .ok ⟨f.path, f.snapshot⟩ ∨
      (crashed.Replaceable (temporaryPath f.path) f.path ∧
        openAt f.path crashed = .ok ⟨f.path, f.snapshot.stage ops⟩) ∨
      openAt f.path crashed = .ok ⟨f.path, f.settled ops⟩ := by
  have hstaged := hcodec (f.snapshot.stage ops) (by simp)
  cases h with
  | recording hcut =>
      rcases hcut.opens hopen hstale hstaged with hold | ⟨hpersist, -⟩
      · exact Or.inl hold
      · exact Or.inr (Or.inl (opens_of_recorded hopen hstale hstaged hpersist))
  | settling hpersist hcut =>
      obtain ⟨hdisk, hopened⟩ := opens_of_recorded hopen hstale hstaged hpersist
      have hreadable := fun file hfile => (hdisk.source_rights file hfile).2
      rcases hcut.opens hopened hreadable (hcodec _ (by simp)) with hold | ⟨-, hnew⟩
      · exact Or.inr (Or.inl ⟨hcut.replaceable hdisk, hold⟩)
      · exact Or.inr (Or.inr hnew)

/-- A transaction whose record cannot be written leaves the store as it was. -/
theorem opens_of_unrecorded (hopen : openAt f.path disk = .ok f)
    (hstale : ∀ file ∈ disk.fileAt (disk.place (temporaryPath f.path)),
      Disk.mayRead file.2.2 = true)
    (hcodec : Snapshot.parse? (f.snapshot.stage ops).fileText = some (f.snapshot.stage ops))
    (hno : (persist f.path (f.snapshot.stage ops) disk).1 ≠ .ok ())
    (h : Crashed ops f disk crashed) : openAt f.path crashed = .ok ⟨f.path, f.snapshot⟩ := by
  cases h with
  | recording hcut =>
      rcases hcut.opens hopen hstale hcodec with hold | ⟨hpersist, -⟩
      · exact hold
      · exact absurd (congrArg Prod.fst hpersist) hno
  | settling hpersist hcut => exact absurd (congrArg Prod.fst hpersist) hno

/-- A crash is recovered from, unless the record of a refused transaction is left. -/
theorem recovers_or_stuck (hempty : f.snapshot.pending = [])
    (hopen : openAt f.path disk = .ok f)
    (hstale : ∀ file ∈ disk.fileAt (disk.place (temporaryPath f.path)),
      Disk.mayRead file.2.2 = true)
    (hcodec : ∀ t ∈ [f.snapshot.stage ops, f.settled ops], Snapshot.parse? t.fileText = some t)
    (h : Crashed ops f disk crashed) : Recovers ops f crashed ∨
      ∃ refused, f.snapshot.apply ops = .error refused ∧ Stuck ops refused f crashed := by
  rcases h.opens hopen hstale hcodec with hold | ⟨hdisk, hstaged⟩ | hnew
  · exact Or.inl (recovers_of_settled hempty hold (Or.inl rfl))
  · cases happly : f.snapshot.apply ops with
    | ok s =>
        have hs := hcodec (f.settled ops) (by simp)
        rw [settled_of_ok happly] at hs
        exact Or.inl (recovers_of_recorded hempty hdisk hstaged happly hs)
    | error refused =>
        have hs := hcodec (f.snapshot.stage ops) (by simp)
        exact Or.inr ⟨refused, rfl, stuck_of_recorded hempty hdisk hstaged happly hs⟩
  · refine Or.inl (recovers_of_settled hempty hnew ?_)
    cases happly : f.snapshot.apply ops with
    | ok s => exact Or.inr (by rw [settled_of_ok happly])
    | error refused => exact Or.inl (settled_of_error happly)

end Crashed

/-- Every crash is recovered from exactly when the snapshot takes the transaction or its record
cannot be written; otherwise a crash is recovered from unless the record is left in the journal,
and then the store is stuck with it. -/
theorem crash_recovery_iff (hempty : f.snapshot.pending = []) (hopen : openAt f.path disk = .ok f)
    (hstale : ∀ file ∈ disk.fileAt (disk.place (temporaryPath f.path)),
      Disk.mayRead file.2.2 = true)
    (hcodec : ∀ t ∈ [f.snapshot.stage ops, f.settled ops], Snapshot.parse? t.fileText = some t) :
    ((∀ crashed, Crashed ops f disk crashed → Recovers ops f crashed) ↔
      (∃ s, f.snapshot.apply ops = .ok s) ∨
        (persist f.path (f.snapshot.stage ops) disk).1 ≠ .ok ()) ∧
    ∀ crashed, Crashed ops f disk crashed → Recovers ops f crashed ∨
      ∃ refused, f.snapshot.apply ops = .error refused ∧ Stuck ops refused f crashed := by
  refine ⟨⟨fun hall => ?_, fun hwhen crashed hcut => ?_⟩,
    fun crashed hcut => hcut.recovers_or_stuck hempty hopen hstale hcodec⟩
  · cases happly : f.snapshot.apply ops with
    | ok s => exact Or.inl ⟨s, rfl⟩
    | error refused =>
        -- right after the record is written nothing but the journal holds the transaction
        refine Or.inr fun hok => ?_
        have hpersist : persist f.path (f.snapshot.stage ops) disk =
            (.ok (), (persist f.path (f.snapshot.stage ops) disk).2) := Prod.ext hok rfl
        have hstaged := hcodec (f.snapshot.stage ops) (by simp)
        obtain ⟨hdisk, hopened⟩ := opens_of_recorded hopen hstale hstaged hpersist
        exact not_recovers_of_stuck (stuck_of_recorded hempty hdisk hopened happly hstaged)
          (hall _ (.recording (.moved hpersist)))
  · rcases hcut.recovers_or_stuck hempty hopen hstale hcodec with hdone | ⟨refused, happly, -⟩
    · exact hdone
    · rcases hwhen with ⟨s, hs⟩ | hno
      · rw [happly] at hs
        cases hs
      · have hold := hcut.opens_of_unrecorded hopen hstale (hcodec _ (by simp)) hno
        exact recovers_of_settled hempty hold (Or.inl rfl)

end

/-! ## A refused transaction -/

section

open Json (Token)

def emptyStore : FileStore := ⟨"/w/fleet.json", .empty⟩

def emptyStoreDisk : Disk := (create emptyStore.path .empty (.ofDirectories ["/w"])).2

theorem emptyStoreDisk_spec :
    emptyStoreDisk.Replaceable (temporaryPath emptyStore.path) emptyStore.path ∧
      emptyStoreDisk.read? emptyStore.path = some Snapshot.empty.fileText.toUTF8 := by
  have hdisk : (Disk.ofDirectories ["/w"]).Replaceable (temporaryPath emptyStore.path)
      emptyStore.path := by
    refine ⟨rfl, rfl, by decide, rfl, rfl, rfl, rfl, ?_⟩
    rintro file ⟨⟩
  obtain ⟨replaced, hpersist, hagain, hread⟩ := persist_of_replaceable hdisk .empty
  have hleft : emptyStoreDisk = replaced := congrArg Prod.snd hpersist
  rw [hleft]
  exact ⟨hagain, hread⟩

theorem parse?_empty : Snapshot.parse? Snapshot.empty.fileText = some .empty := by
  have htokens : Token.tokens? Snapshot.empty.fileText.toList =
      some [.openObject, .string "collections", .colon, .openObject, .closeObject,
        .closeObject] := by
    decide +kernel
  unfold Snapshot.parse? Json.parse?
  rw [htokens]
  rfl

theorem parse?_staged_removal :
    Snapshot.parse? (Snapshot.empty.stage [.remove "machines" "0"]).fileText =
      some (Snapshot.empty.stage [.remove "machines" "0"]) := by
  have htokens : Token.tokens? (Snapshot.empty.stage [.remove "machines" "0"]).fileText.toList =
      some [.openObject, .string "collections", .colon, .openObject, .closeObject, .comma,
        .string "pending", .colon, .openArray, .openArray, .openObject,
        .string "collection", .colon, .string "machines", .comma,
        .string "id", .colon, .string "0", .comma,
        .string "precondition", .colon, .string "must-exist", .comma,
        .string "change", .colon, .string "remove",
        .closeObject, .closeArray, .closeArray, .closeObject] := by
    decide +kernel
  unfold Snapshot.parse? Json.parse?
  rw [htokens]
  rfl

/-- Removing a machine that is not there is refused; cut off after the record was written, it leaves
a store that cannot be resumed. -/
theorem refused_removal_not_recovered :
    let ops : Transaction := [.remove "machines" "0"]
    emptyStore.snapshot.pending = [] ∧ openAt emptyStore.path emptyStoreDisk = .ok emptyStore ∧
      (∀ file ∈ emptyStoreDisk.fileAt (emptyStoreDisk.place (temporaryPath emptyStore.path)),
        Disk.mayRead file.2.2 = true) ∧
      (∀ t ∈ [emptyStore.snapshot.stage ops, emptyStore.settled ops],
        Snapshot.parse? t.fileText = some t) ∧
      ¬∀ crashed, Crashed ops emptyStore emptyStoreDisk crashed →
        Recovers ops emptyStore crashed := by
  intro ops
  obtain ⟨hdisk, hread⟩ := emptyStoreDisk_spec
  have hopen : openAt emptyStore.path emptyStoreDisk = .ok emptyStore :=
    openAt_written hread parse?_empty
  have hstale := fun file hfile => (hdisk.source_rights file hfile).2
  have hcodec : ∀ t ∈ [emptyStore.snapshot.stage ops, emptyStore.settled ops],
      Snapshot.parse? t.fileText = some t := by
    intro t ht
    rcases List.mem_cons.1 ht with rfl | hlast
    · exact parse?_staged_removal
    · rw [List.mem_singleton.1 hlast]
      exact parse?_empty
  refine ⟨rfl, hopen, hstale, hcodec, fun hall => ?_⟩
  rcases (crash_recovery_iff rfl hopen hstale hcodec).1.1 hall with ⟨s, happly⟩ | hno
  · cases happly
  · obtain ⟨recorded, hpersist, -⟩ :=
      persist_of_replaceable hdisk (emptyStore.snapshot.stage ops)
    exact hno (congrArg Prod.fst hpersist)

end

end FileStore
end FleetUpgrade
