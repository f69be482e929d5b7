import FleetUpgrade.Proofs.DecodedSnapshots
import FleetUpgrade.Proofs.Keyed
import FleetUpgrade.Proofs.StoreCalls

/-! # Opening a store again after its transactions

A store that was opened and then applied transactions leaves a file with the text
of its snapshot. Whether that file opens again is decided by one thing only: the
depth to which the snapshot's JSON form nests. Writing does not look at it, and a
dotted path of an update takes a document as deep as the path is long.
-/

namespace FleetUpgrade.FileStore

structure TransactionRun where
  results : List (Except StoreError Unit)
  store : FileStore
  disk : Disk

/-- Apply transactions one after another, whether or not some are refused. -/
def applyAll : List Transaction → FileStore → Disk → TransactionRun
  | [], f, disk => ⟨[], f, disk⟩
  | ops :: rest, f, disk =>
      let outcome := apply ops f disk
      let run := applyAll rest outcome.store outcome.disk
      { run with results := outcome.result :: run.results }

/-- No write failed, and the file can be read in the end. -/
structure TransactionRun.Unfailing (path : String) (run : TransactionRun) : Prop where
  written : ∀ result ∈ run.results, ∀ file, result ≠ .error (.io file)
  readable : ∀ file, openAt path run.disk ≠ .error (.io file)

section

variable {path : String} {s : Snapshot} {f : FileStore} {disk : Disk}

/-! ## One transaction -/

theorem memory_apply_snapshot (ops : Transaction) (f : FileStore) (disk : Disk) :
    (MemoryStore.apply ops ⟨f.snapshot⟩ disk).store.snapshot = f.settled ops := by
  unfold MemoryStore.apply settled
  dsimp only
  cases f.snapshot.apply ops with
  | error refused => rfl
  | ok s => rfl

/-- A transaction whose writes do not fail leaves the file of the snapshot that it settles on. -/
theorem apply_settles {ops : Transaction}
    (hquiet : ∀ file, (apply ops f disk).result ≠ .error (.io file)) :
    (apply ops f disk).store = ⟨f.path, f.settled ops⟩ ∧
      Holds f.path (f.settled ops) (apply ops f disk).disk := by
  have hfollows := apply_follows disk hquiet
  have hstore := hfollows.store
  have hholds := hfollows.holds
  rw [memory_apply_snapshot] at hstore hholds
  exact ⟨hstore, hholds⟩

theorem all_settled {p : Value → Bool} {ops : Transaction} (hp : Value.Kept p)
    (hops : Transaction.all p ops = true) (h : f.snapshot.all p = true) :
    (f.settled ops).all p = true := by
  cases happly : f.snapshot.apply ops with
  | error refused => rwa [settled_of_error happly]
  | ok s =>
      rw [settled_of_ok happly]
      exact Snapshot.all_apply hp hops h happly

/-! ## A run of transactions -/

theorem applyAll_store {transactions : List Transaction}
    (hquiet : ∀ result ∈ (applyAll transactions f disk).results, ∀ file,
      result ≠ .error (.io file)) :
    (applyAll transactions f disk).store.path = f.path ∧
      (transactions ≠ [] → Holds f.path (applyAll transactions f disk).store.snapshot
        (applyAll transactions f disk).disk) := by
  induction transactions generalizing f disk with
  | nil => exact ⟨rfl, fun h => absurd rfl h⟩
  | cons ops rest ih =>
      obtain ⟨hstore, hholds⟩ := apply_settles (hquiet _ List.mem_cons_self)
      have hrest := @ih (apply ops f disk).store (apply ops f disk).disk
        fun result hresult => hquiet result (List.mem_cons_of_mem _ hresult)
      rw [hstore] at hrest
      refine ⟨?_, fun _ => ?_⟩
      · change (applyAll rest (apply ops f disk).store (apply ops f disk).disk).store.path = _
        rw [hstore]
        exact hrest.1
      · change Holds f.path (applyAll rest (apply ops f disk).store
          (apply ops f disk).disk).store.snapshot (applyAll rest (apply ops f disk).store
            (apply ops f disk).disk).disk
        rw [hstore]
        -- what the file holds is said by the last transaction of the run
        by_cases hlast : rest = []
        · rw [hlast]
          exact hholds
        · exact hrest.2 hlast

theorem applyAll_all {p : Value → Bool} {transactions : List Transaction} (hp : Value.Kept p)
    (htransactions : ∀ ops ∈ transactions, Transaction.all p ops = true)
    (h : f.snapshot.all p = true)
    (hquiet : ∀ result ∈ (applyAll transactions f disk).results, ∀ file,
      result ≠ .error (.io file)) :
    (applyAll transactions f disk).store.snapshot.all p = true := by
  induction transactions generalizing f disk with
  | nil => exact h
  | cons ops rest ih =>
      obtain ⟨hstore, -⟩ := apply_settles (hquiet _ List.mem_cons_self)
      refine ih (fun other hother => htransactions other (List.mem_cons_of_mem ops hother)) ?_
        fun result hresult => hquiet result (List.mem_cons_of_mem _ hresult)
      rw [hstore]
      exact all_settled hp (htransactions ops List.mem_cons_self) h

/-! ## Opening again -/

/-- A file that holds a snapshot's text opens if the snapshot does not nest too deep. -/
theorem openAt_of_holds (hholds : Holds path s disk) (hfloat : s.floatFree = true)
    (honce : s.namesOnce = true) (hread : ∀ file, openAt path disk ≠ .error (.io file)) :
    openAt path disk = if s.toJson.nesting < 128 then .ok ⟨path, s⟩ else .error .snapshot := by
  obtain ⟨number, mode, hfile⟩ := hholds
  have hcontents : disk.read? path = some s.fileText.toUTF8 := by
    cases hcase : disk.read? path with
    | none =>
        refine absurd ?_ (hread path)
        unfold openAt
        simp only [hcase]
    | some contents =>
        cases hloc : disk.locate path with
        | none => simp [Disk.read?, hloc] at hcase
        | some loc =>
            obtain rfl := Disk.locate_eq_place hloc
            rw [Disk.read?_of_locate hloc, hfile, Option.bind_some] at hcase
            split at hcase
            · exact hcase.symm
            · cases hcase
  have hparse := Snapshot.parse?_fileText_eq_ite hfloat honce
  have hroom : s.toJson.nesting ≤ Json.room ↔ s.toJson.nesting < 128 := Nat.lt_succ_iff.symm
  unfold openAt
  simp only [hcontents, Text.fromUTF8?_toUTF8, Option.bind_some, hparse, hroom]
  by_cases hfits : s.toJson.nesting < 128
  · simp only [if_pos hfits]
  · simp only [if_neg hfits]

/-- A store that opens was read from a snapshot's text at its path. -/
theorem parsed_of_openAt (hopen : openAt path disk = .ok f) :
    f.path = path ∧ ∃ text, Snapshot.parse? text = some f.snapshot := by
  unfold openAt at hopen
  split at hopen
  · cases hopen
  · next contents _ =>
      split at hopen
      · cases hopen
      · next s hs =>
          cases hopen
          obtain ⟨text, -, hparse⟩ := Option.bind_eq_some_iff.1 hs
          exact ⟨rfl, text, hparse⟩

theorem readable_of_read? {contents : ByteArray} (h : disk.read? path = some contents)
    (file : String) : openAt path disk ≠ .error (.io file) := by
  unfold openAt
  simp only [h]
  split
  · exact nofun
  · exact nofun

theorem apply_readable (ops : Transaction)
    (hdisk : disk.Replaceable (temporaryPath f.path) f.path) :
    ∃ contents, (apply ops f disk).disk.read? f.path = some contents := by
  obtain ⟨recorded, hrecord, hrecorded, -⟩ := persist_of_replaceable hdisk (f.snapshot.stage ops)
  unfold apply applyWith
  simp only [hrecord]
  cases f.snapshot.apply ops with
  | error refused =>
      obtain ⟨after, hsettle, -, hread⟩ := persist_of_replaceable hrecorded f.snapshot
      simp only [hsettle]
      exact ⟨_, hread⟩
  | ok s =>
      obtain ⟨after, hsettle, -, hread⟩ := persist_of_replaceable hrecorded s
      simp only [hsettle]
      exact ⟨_, hread⟩

/-- Where the file can be read and replaced, no write of a run fails and the file can be read. -/
theorem applyAll_unfailing (transactions : List Transaction)
    (hdisk : disk.Replaceable (temporaryPath f.path) f.path)
    (hread : ∃ contents, disk.read? f.path = some contents) :
    (applyAll transactions f disk).Unfailing f.path := by
  induction transactions generalizing f disk with
  | nil =>
      obtain ⟨contents, hcontents⟩ := hread
      exact ⟨nofun, readable_of_read? hcontents⟩
  | cons ops rest ih =>
      have hquiet := apply_quiet ops hdisk
      have hread := apply_readable ops hdisk
      have hagain := hquiet.replaceable
      rw [← hquiet.path_eq] at hread hagain
      have hrest := ih hagain hread
      rw [hquiet.path_eq] at hrest
      refine ⟨fun result hresult => ?_, hrest.readable⟩
      rcases List.mem_cons.1 hresult with rfl | hlater
      · exact hquiet.result
      · exact hrest.written result hlater

/-! ## Paths that are too long -/

theorem segments_join {parts : List String} (hne : parts ≠ [])
    (h : ∀ part ∈ parts, '.' ∉ part.toList) : Path.segments (Text.join "." parts) = parts := by
  have hparts : Text.segments '.' (Text.joinWith ['.'] (parts.map String.toList)) =
      parts.map String.toList :=
    Text.segments_joinWith (by simpa using hne) (List.forall_mem_map.2 h)
  unfold Path.segments Text.join
  rw [String.toList_ofList]
  change (Text.segments '.' (Text.joinWith ['.'] (parts.map String.toList))).map String.ofList = _
  rw [hparts, List.map_map]
  have hid : String.ofList ∘ String.toList = id := funext fun s => String.ofList_toList
  rw [hid, List.map_id]

/-- Writing at a place of which nothing is there makes a document for every segment. -/
theorem setAt_empty (path : String) (new : Value) {segments : List String}
    (h : ∀ segment ∈ segments, segment ≠ "") :
    (Value.setAt path new segments (.document [])).2 = none ∧
      (Value.setAt path new segments (.document [])).1.toJson.nesting =
        segments.length + new.toJson.nesting := by
  induction segments with
  | nil => exact ⟨rfl, (Nat.zero_add _).symm⟩
  | cons segment rest ih =>
      obtain ⟨hnone, hnesting⟩ := ih fun other hother =>
        h other (List.mem_cons_of_mem segment hother)
      unfold Value.setAt
      rw [if_neg (h segment List.mem_cons_self)]
      refine ⟨hnone, ?_⟩
      change max (Value.setAt path new rest (.document [])).1.toJson.nesting 0 + 1 = _
      rw [hnesting, List.length_cons]
      omega

def deepPath (n : Nat) : String := Text.join "." (List.replicate (n + 1) "a")

/-- Put a document and then write at a deep path. -/
def deepening (n : Nat) : List Transaction :=
  [[.insert "c" "d" .empty], [.update "c" "d" (Update.empty.setting (deepPath n) .null)]]

theorem segments_deepPath (n : Nat) : Path.segments (deepPath n) = List.replicate (n + 1) "a" :=
  segments_join nofun fun part hpart => by
    rw [List.eq_of_mem_replicate hpart]
    decide

theorem deepPath_ne_idField (n : Nat) : deepPath n ≠ Document.idField := by
  intro h
  have hsegments := segments_deepPath n
  rw [h, Path.segments_idField, List.replicate_succ] at hsegments
  exact absurd (List.cons.inj hsegments).1 (by decide)

theorem deepening_unfailing (n : Nat) :
    (applyAll (deepening n) emptyStore emptyStoreDisk).Unfailing emptyStore.path :=
  applyAll_unfailing (deepening n) emptyStoreDisk_spec.1 ⟨_, emptyStoreDisk_spec.2⟩

theorem deepening_contents (n : Nat) : ∀ ops ∈ deepening n,
    Transaction.all Value.noFloat ops = true ∧ Transaction.all Value.namesOnce ops = true := by
  intro ops hops
  rcases List.mem_cons.1 hops with rfl | hlast
  · exact ⟨rfl, rfl⟩
  · rw [List.mem_singleton.1 hlast]
    exact ⟨rfl, rfl⟩

theorem setAt_deepPath (n : Nat) :
    (Value.setAt (deepPath n) .null (List.replicate n "a") (.document [])).2 = none ∧
      (Value.setAt (deepPath n) .null (List.replicate n "a") (.document [])).1.toJson.nesting =
        n := by
  have hnames : ∀ segment ∈ List.replicate n "a", segment ≠ "" := by
    intro segment hsegment
    rw [List.eq_of_mem_replicate hsegment]
    decide
  obtain ⟨hnone, hnesting⟩ := setAt_empty (deepPath n) .null hnames
  rw [List.length_replicate] at hnesting
  exact ⟨hnone, hnesting⟩

def deepened (n : Nat) : Document :=
  ⟨[("_id", .string "d"),
    ("a", (Value.setAt (deepPath n) .null (List.replicate n "a") (.document [])).1)]⟩

theorem execute_deepening (n : Nat) :
    (Update.empty.setting (deepPath n) .null).execute ⟨[("_id", .string "d")]⟩ =
      .ok (deepened n) := by
  have hset : Document.setPath ⟨[("_id", .string "d")]⟩ (deepPath n) .null =
      (deepened n, none) := by
    unfold Document.setPath
    rw [segments_deepPath]
    exact Prod.ext rfl (setAt_deepPath n).1
  have hone : Update.setOne ⟨[("_id", .string "d")]⟩ (deepPath n, .null) = .ok (deepened n) := by
    simp only [Update.setOne, if_neg (deepPath_ne_idField n), hset]
  change (Update.setOne ⟨[("_id", .string "d")]⟩ (deepPath n, .null) >>= fun d => pure d).bind
    (fun d => pure d) = _
  rw [hone]
  rfl

theorem nesting_deepened (n : Nat) : (deepened n).toJson.nesting = n + 1 := by
  change max 0 (max (Value.setAt (deepPath n) .null (List.replicate n "a")
    (.document [])).1.toJson.nesting 0) + 1 = n + 1
  rw [(setAt_deepPath n).2]
  omega

theorem nesting_of_find? {s : Snapshot} {name id : String} {d : Document}
    (h : s.find? name id = some d) : d.toJson.nesting + 3 ≤ s.toJson.nesting :=
  (s.forall_entries_iff (P := fun _ _ d => d.toJson.nesting + 3 ≤ s.toJson.nesting)).1
    (fun _ hentry _ hdocument => Snapshot.nesting_of_mem hentry hdocument) name id d h

theorem apply_taken {ops : Transaction} (hdisk : disk.Replaceable (temporaryPath f.path) f.path)
    (happly : f.snapshot.apply ops = .ok s) :
    (apply ops f disk).result = .ok () ∧ (apply ops f disk).store = ⟨f.path, s⟩ := by
  have hquiet := (apply_quiet ops hdisk).result
  have hresult := (apply_follows disk hquiet).result
  have hstore := (apply_settles hquiet).1
  rw [settled_of_ok happly] at hstore
  refine ⟨hresult.trans ?_, hstore⟩
  unfold MemoryStore.apply
  simp only [happly]

theorem apply_update {name id : String} {u : Update} {d d' : Document}
    (hd : s.find? name id = some d) (hu : u.execute d = .ok d') :
    ∃ s', s.apply [.update name id u] = .ok s' ∧ s'.find? name id = some d' := by
  have hexecute : Transaction.execute [.update name id u] s.find? =
      .ok (Documents.place s.find? name id (some d')) := by
    have hone : (Operation.update name id u).execute s.find? =
        .ok (Documents.place s.find? name id (some d')) := by
      simp only [Operation.execute, Operation.update, hd, hu, Precondition.holds,
        Option.isSome_some, if_true]
    rw [Transaction.execute, hone]
    rfl
  have hsame := s.apply_sameOutcome [.update name id u]
  rw [hexecute] at hsame
  generalize s.apply [.update name id u] = applied at hsame ⊢
  cases hsame with
  | ok happlied =>
      refine ⟨_, rfl, ?_⟩
      rw [happlied.documents, Documents.place_self]

theorem applyAll_deepening (n : Nat) :
    (applyAll (deepening n) emptyStore emptyStoreDisk).results = [.ok (), .ok ()] ∧
      (applyAll (deepening n) emptyStore emptyStoreDisk).store.snapshot.find? "c" "d" =
        some (deepened n) := by
  have hinsert : ∃ s, emptyStore.snapshot.apply [.insert "c" "d" .empty] = .ok s ∧
      s.find? "c" "d" = some ⟨[("_id", .string "d")]⟩ := ⟨_, rfl, rfl⟩
  obtain ⟨s, happly, hfind⟩ := hinsert
  obtain ⟨s', happly', hfind'⟩ := apply_update hfind (execute_deepening n)
  obtain ⟨hresult, hstore⟩ := apply_taken emptyStoreDisk_spec.1 happly
  have hdisk := (apply_quiet [.insert "c" "d" .empty] emptyStoreDisk_spec.1).replaceable
  obtain ⟨hresult', hstore'⟩ := @apply_taken s' ⟨emptyStore.path, s⟩ _ _ hdisk happly'
  unfold deepening applyAll applyAll applyAll
  simp only [hresult, hstore, hresult', hstore']
  exact ⟨trivial, hfind'⟩

/-- A path of more than 124 segments leaves a file that does not open again. -/
theorem not_reopened_after_deep_path {n : Nat} (h : 124 ≤ n) :
    openAt emptyStore.path (applyAll (deepening n) emptyStore emptyStoreDisk).disk =
      .error .snapshot := by
  have hrun := deepening_unfailing n
  have hcontents := deepening_contents n
  -- the document nests by its path and stands three levels down in the snapshot
  have hdepth := nesting_of_find? (applyAll_deepening n).2
  rw [nesting_deepened] at hdepth
  have hdeep : ¬(applyAll (deepening n) emptyStore emptyStoreDisk).store.snapshot.toJson.nesting <
      128 := by omega
  have hopened := openAt_of_holds ((applyAll_store hrun.written).2 nofun)
    (applyAll_all Value.kept_noFloat (fun ops hops => (hcontents ops hops).1) rfl hrun.written)
    (applyAll_all Value.kept_namesOnce (fun ops hops => (hcontents ops hops).2) rfl hrun.written)
    hrun.readable
  rwa [if_neg hdeep] at hopened

/-! ## Whether a store reopens -/

/-- After transactions without binary64 numbers, the file of an opened store opens again to the
store that was left if its snapshot nests fewer than 128 deep, and is no snapshot file any more if
it nests deeper. -/
theorem reopens_unless_too_deep {transactions : List Transaction}
    (hopen : openAt path disk = .ok f) (hfloat : f.snapshot.floatFree = true)
    (hfloats : ∀ ops ∈ transactions, Transaction.all Value.noFloat ops = true)
    (honces : ∀ ops ∈ transactions, Transaction.all Value.namesOnce ops = true)
    (hrun : (applyAll transactions f disk).Unfailing path) :
    openAt path (applyAll transactions f disk).disk =
      if (applyAll transactions f disk).store.snapshot.toJson.nesting < 128 then
        .ok (applyAll transactions f disk).store
      else .error .snapshot := by
  obtain ⟨hpath, text, hparse⟩ := parsed_of_openAt hopen
  obtain ⟨honce, hnesting⟩ := Snapshot.parse?_spec hparse
  obtain ⟨hstore, hholds⟩ := applyAll_store hrun.written
  by_cases hnone : transactions = []
  · subst hnone
    exact hopen.trans (if_pos hnesting).symm
  · have hopened := openAt_of_holds (hpath ▸ hholds hnone)
      (applyAll_all Value.kept_noFloat hfloats hfloat hrun.written)
      (applyAll_all Value.kept_namesOnce honces honce hrun.written) hrun.readable
    rw [hopened]
    have hsame : (⟨path, (applyAll transactions f disk).store.snapshot⟩ : FileStore) =
        (applyAll transactions f disk).store := by
      rw [← hpath, ← hstore]
    rw [hsame]

/-- A path of two segments is far from too deep. -/
theorem reopens_after_short_path :
    (openAt emptyStore.path emptyStoreDisk = .ok emptyStore ∧
        (applyAll (deepening 1) emptyStore emptyStoreDisk).Unfailing emptyStore.path ∧
        (applyAll (deepening 1) emptyStore emptyStoreDisk).store.snapshot.toJson.nesting = 5) ∧
      openAt emptyStore.path (applyAll (deepening 1) emptyStore emptyStoreDisk).disk =
        .ok (applyAll (deepening 1) emptyStore emptyStoreDisk).store := by
  have hopen : openAt emptyStore.path emptyStoreDisk = .ok emptyStore :=
    openAt_written emptyStoreDisk_spec.2 parse?_empty
  have hnesting : (applyAll (deepening 1) emptyStore
      emptyStoreDisk).store.snapshot.toJson.nesting = 5 := by decide +kernel
  have hopened := reopens_unless_too_deep hopen rfl
    (fun ops hops => (deepening_contents 1 ops hops).1)
    (fun ops hops => (deepening_contents 1 ops hops).2) (deepening_unfailing 1)
  rw [hnesting] at hopened
  exact ⟨⟨hopen, deepening_unfailing 1, hnesting⟩, hopened⟩

/-- A path of 125 segments is: all calls succeed, and the file does not open again. -/
theorem not_reopened_after_125_segments :
    openAt emptyStore.path emptyStoreDisk = .ok emptyStore ∧
      emptyStore.snapshot.floatFree = true ∧
      (∀ ops ∈ deepening 124, Transaction.all Value.noFloat ops = true ∧
        Transaction.all Value.namesOnce ops = true) ∧
      (applyAll (deepening 124) emptyStore emptyStoreDisk).Unfailing emptyStore.path ∧
      (applyAll (deepening 124) emptyStore emptyStoreDisk).results = [.ok (), .ok ()] ∧
      openAt emptyStore.path (applyAll (deepening 124) emptyStore emptyStoreDisk).disk =
        .error .snapshot :=
  ⟨openAt_written emptyStoreDisk_spec.2 parse?_empty, rfl, deepening_contents 124,
    deepening_unfailing 124, (applyAll_deepening 124).1, not_reopened_after_deep_path (by decide)⟩

end

end FleetUpgrade.FileStore
