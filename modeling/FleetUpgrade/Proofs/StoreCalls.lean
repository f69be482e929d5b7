import FleetUpgrade.Proofs.Recovery
import FleetUpgrade.Proofs.SnapshotStore

/-! # A store in a file answers as one in memory

A run of calls is answered one after another, each on the store and the disk
that the call before it left. As long as no write fails, a store in a file and
one in memory give the same replies and hold the same snapshot, and the file is
the text of that snapshot.
-/

namespace FleetUpgrade

inductive StoreChange where
  | apply (ops : Transaction)
  | stage (ops : Transaction)
  | resume
  | drop (collection : String)

inductive StoreCall where
  | change (call : StoreChange)
  | scan (collection : String) (query : Query)
  | find (collection id : String)
  | count (collection : String)
  | names

inductive StoreReply where
  | changed (result : Except StoreError Unit)
  | scanned (result : Except StoreError Cursor)
  | found (result : Except StoreError Document)
  | counted (result : Except StoreError Nat)
  | named (names : List String)

def StoreReply.error? : StoreReply → Option StoreError
  | .changed (.error e) => some e
  | .scanned (.error e) => some e
  | .found (.error e) => some e
  | .counted (.error e) => some e
  | _ => none

structure StoreAnswer (σ : Type) where
  reply : StoreReply
  store : σ
  disk : Disk

/-- Stores that can record a transaction without applying it. -/
class StagingStore (σ : Type) where
  stage : Transaction → σ → Disk → Outcome σ

instance : StagingStore FileStore := ⟨FileStore.stage⟩

instance : StagingStore MemoryStore := ⟨fun ops m disk => ⟨.ok (), m.stage ops, disk⟩⟩

section

variable {σ : Type} [DocumentStore σ] [StagingStore σ]

def StoreChange.run : StoreChange → σ → Disk → Outcome σ
  | .apply ops => DocumentStore.apply ops
  | .stage ops => StagingStore.stage ops
  | .resume => DocumentStore.resume
  | .drop collection => DocumentStore.drop collection

def StoreCall.run (call : StoreCall) (store : σ) (disk : Disk) : StoreAnswer σ :=
  match call with
  | .change call =>
      let outcome := call.run store disk
      ⟨.changed outcome.result, outcome.store, outcome.disk⟩
  | .scan collection query => ⟨.scanned (DocumentStore.scan store collection query), store, disk⟩
  | .find collection id => ⟨.found (DocumentStore.find store collection id), store, disk⟩
  | .count collection => ⟨.counted (DocumentStore.count store collection), store, disk⟩
  | .names => ⟨.named (DocumentStore.names store), store, disk⟩

def StoreCall.answers : List StoreCall → σ → Disk → List (StoreAnswer σ)
  | [], _, _ => []
  | call :: calls, store, disk =>
      let answer := call.run store disk
      answer :: answers calls answer.store answer.disk

end

/-! ## Refusals

Only writing reports a file: what a snapshot refuses is about its data. -/

namespace Snapshot

theorem apply_ne_io {s : Snapshot} {ops : Transaction} {file : String} :
    s.apply ops ≠ .error (.io file) := by
  intro h
  have hsame := s.apply_sameOutcome ops
  rw [h] at hsame
  generalize hexec : ops.execute s.find? = executed at hsame
  cases hsame with
  | error =>
      obtain ⟨-, op, -, docs, -, -, hop⟩ := Transaction.execute_error_iff.1 hexec
      unfold Operation.execute at hop
      split at hop
      · split at hop
        · cases hop
        · split at hop <;> cases hop
        · cases hop
        · cases hop
      · cases hop

theorem resume_ne_io {s : Snapshot} {file : String} : s.resume.1 ≠ .error (.io file) := by
  obtain ⟨cs, journal⟩ := s
  change (resumeFrom cs journal).1 ≠ _
  induction journal generalizing cs with
  | nil => exact nofun
  | cons ops rest ih =>
      have hone : (Snapshot.mk cs []).apply ops ≠ .error (.io file) := apply_ne_io
      unfold Snapshot.apply at hone
      unfold resumeFrom
      cases happly : ops.applyTo cs with
      | error e =>
          rw [happly] at hone
          simpa using hone
      | ok cs' =>
          intro h
          have hrest := ih cs'
          cases hresume : (resumeFrom cs' rest).1 with
          | error e =>
              simp only [hresume, Except.map, Except.error.injEq] at h hrest
              exact hrest (congrArg _ h)
          | ok n => simp [hresume, Except.map] at h

end Snapshot

namespace FileStore

/-- The file of a store is the text of a snapshot. -/
def Holds (path : String) (s : Snapshot) (disk : Disk) : Prop :=
  ∃ number mode, disk.fileAt (disk.place path) = some (number, s.fileText.toUTF8, mode)

/-! ## One write -/

theorem holds_of_persist {path : String} {s : Snapshot} {disk replaced : Disk}
    (h : persist path s disk = (.ok (), replaced)) : Holds path s replaced := by
  obtain ⟨written, hwrite, hmove⟩ := persist_spec h
  obtain ⟨loc, hloc, hhow⟩ := Disk.write?_spec hwrite
  obtain ⟨old, new, number, contents, mode, hold, hnew, hfile, -, -, -, hreplaced⟩ :=
    Disk.rename?_spec hmove
  have hroot : loc ≠ .root := by
    rw [Disk.locate_eq_place hloc]
    exact Disk.place_ne_root_of_write? hwrite
  have hnewroot : new ≠ .root := by
    rw [Disk.locate_eq_place hnew]
    exact Disk.place_ne_root_of_rename? hmove
  -- the file that is moved is the one that was just written
  have hhere : written.here = disk.here := by
    rcases hhow with ⟨_, _, _, -, -, rfl⟩ | ⟨-, -, rfl⟩ <;> rfl
  have hsame : old = loc := by
    rw [Disk.locate_eq_place hold, Disk.locate_eq_place hloc, Disk.place_of_here hhere]
  have hcontents : contents = s.fileText.toUTF8 := by
    have hstands := (Disk.fileAt_eq_some_iff _ _ _ _ _).2 hfile
    rw [hsame] at hstands
    rcases hhow with ⟨_, _, _, -, -, rfl⟩ | ⟨-, -, rfl⟩
    · rw [Disk.fileAt_withEntry hroot] at hstands
      cases hstands
      rfl
    · have hmade := Disk.fileAt_withEntry (d := disk) hroot disk.made Disk.newFileMode
        s.fileText.toUTF8
      have hstands' : (disk.withEntry loc (.file disk.made s.fileText.toUTF8
          Disk.newFileMode)).fileAt loc = some (number, contents, mode) := hstands
      rw [hmade] at hstands'
      cases hstands'
      rfl
  subst hcontents
  have hplace : replaced.place path = new := by
    rw [Disk.locate_eq_place hnew, hreplaced]
    exact Disk.place_of_here rfl path
  refine ⟨number, mode, ?_⟩
  rw [hplace, hreplaced]
  exact Disk.fileAt_withEntry hnewroot number mode _

/-- Writing either fails or leaves the text of the snapshot. -/
theorem persist_done (path : String) (s : Snapshot) (disk : Disk)
    (hquiet : ∀ file after, persist path s disk ≠ (.error (.io file), after)) :
    ∃ after, persist path s disk = (.ok (), after) ∧ Holds path s after := by
  cases hwrite : persist path s disk with
  | mk result after =>
      cases result with
      | error e =>
          obtain ⟨file, rfl⟩ := persist_error hwrite
          exact absurd hwrite (hquiet file after)
      | ok => exact ⟨after, rfl, holds_of_persist hwrite⟩

/-! ## One call -/

/-- What a changing call does to a store in a file is what it does to one in memory. -/
structure Follows (path : String) (outcome : Outcome FileStore) (memory : Outcome MemoryStore) :
    Prop where
  result : outcome.result = memory.result
  store : outcome.store = ⟨path, memory.store.snapshot⟩
  holds : Holds path memory.store.snapshot outcome.disk

section

variable {f : FileStore} {disk : Disk} (other : Disk)

theorem apply_follows {ops : Transaction}
    (hquiet : ∀ file, (apply ops f disk).result ≠ .error (.io file)) :
    Follows f.path (apply ops f disk) (MemoryStore.apply ops ⟨f.snapshot⟩ other) := by
  unfold apply applyWith at hquiet ⊢
  unfold MemoryStore.apply
  obtain ⟨recorded, hrecord, -⟩ := persist_done f.path (f.snapshot.stage ops) disk
    fun file after herror => hquiet file (by simp only [herror])
  simp only [hrecord] at hquiet ⊢
  cases happly : f.snapshot.apply ops with
  | error refused =>
      simp only [happly] at hquiet ⊢
      obtain ⟨settled, hsettle, hholds⟩ := persist_done f.path f.snapshot recorded
        fun file after herror => hquiet file (by simp only [herror])
      simp only [hsettle]
      exact ⟨rfl, rfl, hholds⟩
  | ok s =>
      simp only [happly] at hquiet ⊢
      obtain ⟨settled, hsettle, hholds⟩ := persist_done f.path s recorded
        fun file after herror => hquiet file (by simp only [herror])
      simp only [hsettle]
      exact ⟨rfl, rfl, hholds⟩

theorem resume_follows (hfile : Holds f.path f.snapshot disk)
    (hquiet : ∀ file, (resume f disk).result ≠ .error (.io file)) :
    Follows f.path (resume f disk) (MemoryStore.resume ⟨f.snapshot⟩ other) := by
  unfold resume resumeWith at hquiet ⊢
  unfold MemoryStore.resume
  by_cases hjournal : f.snapshot.pending = []
  · rw [if_pos hjournal, Snapshot.resume_of_empty hjournal]
    exact ⟨rfl, rfl, hfile⟩
  · rw [if_neg hjournal] at hquiet ⊢
    obtain ⟨after, hwrite, hholds⟩ := persist_done f.path f.snapshot.resume.2 disk
      fun file after herror => hquiet file (by simp only [herror])
    simp only [hwrite]
    exact ⟨rfl, rfl, hholds⟩

theorem drop_follows {name : String} (hfile : Holds f.path f.snapshot disk)
    (hquiet : ∀ file, (drop name f disk).result ≠ .error (.io file)) :
    Follows f.path (drop name f disk) (MemoryStore.drop name ⟨f.snapshot⟩ other) := by
  have hsnapshot := dropWith_snapshot (persist f.path) name f disk
  unfold dropWith at hsnapshot
  unfold drop dropWith at hquiet ⊢
  unfold MemoryStore.drop
  by_cases hthere : f.snapshot.collections.contains name = true
  · rw [if_pos hthere] at hquiet ⊢
    obtain ⟨after, hwrite, hholds⟩ :=
      persist_done f.path (f.snapshot.dropCollection name) disk
        fun file after herror => hquiet file (by simp only [herror])
    simp only [hwrite]
    exact ⟨rfl, rfl, hholds⟩
  · -- the store in memory takes out what is not there
    rw [if_neg hthere] at hsnapshot ⊢
    have hsame : f.snapshot.dropCollection name = f.snapshot := hsnapshot.symm
    simp only [hsame]
    exact ⟨rfl, rfl, hfile⟩

theorem stage_follows {ops : Transaction}
    (hquiet : ∀ file, (stage ops f disk).result ≠ .error (.io file)) :
    Follows f.path (stage ops f disk) ⟨.ok (), MemoryStore.stage ops ⟨f.snapshot⟩, other⟩ := by
  unfold stage stageWith at hquiet ⊢
  obtain ⟨after, hwrite, hholds⟩ := persist_done f.path (f.snapshot.stage ops) disk
    fun file after herror => hquiet file (by simp only [herror])
  simp only [hwrite]
  exact ⟨rfl, rfl, hholds⟩

theorem change_follows (call : StoreChange) (hfile : Holds f.path f.snapshot disk)
    (hquiet : ∀ file, (call.run f disk).result ≠ .error (.io file)) :
    Follows f.path (call.run f disk) (call.run (⟨f.snapshot⟩ : MemoryStore) other) := by
  cases call with
  | apply ops =>
      simp only [StoreChange.run] at hquiet ⊢
      exact apply_follows other hquiet
  | stage ops =>
      simp only [StoreChange.run] at hquiet ⊢
      exact stage_follows other hquiet
  | resume =>
      simp only [StoreChange.run] at hquiet ⊢
      exact resume_follows other hfile hquiet
  | drop name =>
      simp only [StoreChange.run] at hquiet ⊢
      exact drop_follows other hfile hquiet

/-- Any call without a failed write is answered as in memory, and keeps the file up to date. -/
theorem run_follows (call : StoreCall) (hfile : Holds f.path f.snapshot disk)
    (hquiet : ∀ file, (call.run f disk).reply.error? ≠ some (.io file)) :
    (call.run f disk).reply = (call.run (⟨f.snapshot⟩ : MemoryStore) other).reply ∧
      (call.run f disk).store =
        ⟨f.path, (call.run (⟨f.snapshot⟩ : MemoryStore) other).store.snapshot⟩ ∧
      Holds f.path (call.run f disk).store.snapshot (call.run f disk).disk := by
  cases call with
  | change call =>
      have hfollows := change_follows other call hfile fun file herror =>
        hquiet file (by simp [StoreCall.run, herror, StoreReply.error?])
      refine ⟨congrArg StoreReply.changed hfollows.result, hfollows.store, ?_⟩
      have hholds := hfollows.holds
      change Holds f.path (call.run f disk).store.snapshot (call.run f disk).disk
      rwa [hfollows.store]
  | scan collection query => exact ⟨rfl, rfl, hfile⟩
  | find collection id => exact ⟨rfl, rfl, hfile⟩
  | count collection => exact ⟨rfl, rfl, hfile⟩
  | names => exact ⟨rfl, rfl, hfile⟩

end

/-! ## A run of calls -/

theorem answers_follow (calls : List StoreCall) {f : FileStore} {disk : Disk} (other : Disk)
    (hfile : Holds f.path f.snapshot disk)
    (hquiet : ∀ answer ∈ StoreCall.answers calls f disk, ∀ file,
      answer.reply.error? ≠ some (.io file)) :
    (StoreCall.answers calls f disk).map (fun answer => (answer.reply, answer.store.snapshot)) =
        (StoreCall.answers calls (⟨f.snapshot⟩ : MemoryStore) other).map
          (fun answer => (answer.reply, answer.store.snapshot)) ∧
      ∀ answer ∈ StoreCall.answers calls f disk,
        Holds f.path answer.store.snapshot answer.disk := by
  induction calls generalizing f disk other with
  | nil => exact ⟨rfl, fun answer hanswer => absurd hanswer List.not_mem_nil⟩
  | cons call calls ih =>
      simp only [StoreCall.answers, List.mem_cons, forall_eq_or_imp] at hquiet ⊢
      obtain ⟨hreply, hstore, hholds⟩ := run_follows other call hfile hquiet.1
      have hpath : (call.run f disk).store.path = f.path := by rw [hstore]
      have hmemory : (⟨(call.run f disk).store.snapshot⟩ : MemoryStore) =
          (call.run (⟨f.snapshot⟩ : MemoryStore) other).store := by rw [hstore]
      rw [← hpath] at hholds ⊢
      obtain ⟨hreplies, hfiles⟩ :=
        ih (call.run (⟨f.snapshot⟩ : MemoryStore) other).disk hholds hquiet.2
      rw [hmemory] at hreplies
      refine ⟨?_, hholds, hfiles⟩
      have hhead : (call.run f disk).store.snapshot =
          (call.run (⟨f.snapshot⟩ : MemoryStore) other).store.snapshot := by rw [hstore]
      rw [List.map_cons, List.map_cons, hreplies, hreply, hhead]

/-! ## Where the file can be replaced -/

/-- A call that wrote all it had to, and after which the file can be replaced again. -/
structure Quiet (path : String) (outcome : Outcome FileStore) : Prop where
  result : ∀ file, outcome.result ≠ .error (.io file)
  path_eq : outcome.store.path = path
  replaceable : outcome.disk.Replaceable (temporaryPath path) path

section

variable {f : FileStore} {disk : Disk}

theorem apply_quiet (ops : Transaction) (hdisk : disk.Replaceable (temporaryPath f.path) f.path) :
    Quiet f.path (apply ops f disk) := by
  obtain ⟨recorded, hrecord, hrecorded, -⟩ := persist_of_replaceable hdisk (f.snapshot.stage ops)
  unfold apply applyWith
  simp only [hrecord]
  cases happly : f.snapshot.apply ops with
  | error refused =>
      have hdata : ∀ file, refused ≠ .io file := fun file h =>
        Snapshot.apply_ne_io (h ▸ happly)
      obtain ⟨settled, hsettle, hsettled, -⟩ := persist_of_replaceable hrecorded f.snapshot
      simp only [hsettle]
      exact ⟨fun file h => hdata file (Except.error.inj h), rfl, hsettled⟩
  | ok s =>
      obtain ⟨settled, hsettle, hsettled, -⟩ := persist_of_replaceable hrecorded s
      simp only [hsettle]
      exact ⟨nofun, rfl, hsettled⟩

theorem stage_quiet (ops : Transaction) (hdisk : disk.Replaceable (temporaryPath f.path) f.path) :
    Quiet f.path (stage ops f disk) := by
  obtain ⟨after, hwrite, hafter, -⟩ := persist_of_replaceable hdisk (f.snapshot.stage ops)
  unfold stage stageWith
  simp only [hwrite]
  exact ⟨nofun, rfl, hafter⟩

theorem resume_quiet (hdisk : disk.Replaceable (temporaryPath f.path) f.path) :
    Quiet f.path (resume f disk) := by
  obtain ⟨after, hwrite, hafter, -⟩ := persist_of_replaceable hdisk f.snapshot.resume.2
  unfold resume resumeWith
  split
  · exact ⟨nofun, rfl, hdisk⟩
  · simp only [hwrite]
    cases hresume : f.snapshot.resume.1 with
    | ok n => exact ⟨nofun, rfl, hafter⟩
    | error refused =>
        have hdata : ∀ file, refused ≠ .io file := fun file h =>
          Snapshot.resume_ne_io (h ▸ hresume)
        exact ⟨fun file h => hdata file (Except.error.inj h), rfl, hafter⟩

theorem drop_quiet (name : String) (hdisk : disk.Replaceable (temporaryPath f.path) f.path) :
    Quiet f.path (drop name f disk) := by
  obtain ⟨after, hwrite, hafter, -⟩ :=
    persist_of_replaceable hdisk (f.snapshot.dropCollection name)
  unfold drop dropWith
  split
  · simp only [hwrite]
    exact ⟨nofun, rfl, hafter⟩
  · exact ⟨nofun, rfl, hdisk⟩

theorem change_quiet (call : StoreChange)
    (hdisk : disk.Replaceable (temporaryPath f.path) f.path) : Quiet f.path (call.run f disk) := by
  cases call with
  | apply ops =>
      simp only [StoreChange.run]
      exact apply_quiet ops hdisk
  | stage ops =>
      simp only [StoreChange.run]
      exact stage_quiet ops hdisk
  | resume =>
      simp only [StoreChange.run]
      exact resume_quiet hdisk
  | drop name =>
      simp only [StoreChange.run]
      exact drop_quiet name hdisk

theorem run_quiet (call : StoreCall) (hdisk : disk.Replaceable (temporaryPath f.path) f.path) :
    (∀ file, (call.run f disk).reply.error? ≠ some (.io file)) ∧
      (call.run f disk).store.path = f.path ∧
      (call.run f disk).disk.Replaceable (temporaryPath f.path) f.path := by
  cases call with
  | change call =>
      have hquiet := change_quiet call hdisk
      refine ⟨fun file herror => ?_, hquiet.path_eq, hquiet.replaceable⟩
      cases hresult : (call.run f disk).result with
      | ok => simp [StoreCall.run, hresult, StoreReply.error?] at herror
      | error e =>
          simp only [StoreCall.run, hresult, StoreReply.error?, Option.some.injEq] at herror
          exact hquiet.result file (herror ▸ hresult)
  | scan collection query => exact ⟨nofun, rfl, hdisk⟩
  | find collection id =>
      refine ⟨fun file herror => ?_, rfl, hdisk⟩
      change (StoreReply.found (f.snapshot.find collection id)).error? = _ at herror
      unfold Snapshot.find at herror
      split at herror <;> cases herror
  | count collection => exact ⟨nofun, rfl, hdisk⟩
  | names => exact ⟨nofun, rfl, hdisk⟩

end

theorem answers_quiet (calls : List StoreCall) {f : FileStore} {disk : Disk}
    (hdisk : disk.Replaceable (temporaryPath f.path) f.path) :
    ∀ answer ∈ StoreCall.answers calls f disk, ∀ file,
      answer.reply.error? ≠ some (.io file) := by
  induction calls generalizing f disk with
  | nil => exact nofun
  | cons call calls ih =>
      obtain ⟨hquiet, hpath, hagain⟩ := run_quiet call hdisk
      rw [← hpath] at hagain
      simp only [StoreCall.answers, List.mem_cons, forall_eq_or_imp]
      exact ⟨hquiet, ih hagain⟩

/-- A store that is created in a file and never fails to write answers every run of calls as one in
memory does, holds the same snapshot after each of them, and has that snapshot in its file. -/
theorem created_answers_as_memory {path : String} {s : Snapshot} {before start other : Disk}
    {f : FileStore} (calls : List StoreCall) (hcreate : create path s before = (.ok f, start))
    (hquiet : ∀ answer ∈ StoreCall.answers calls f start, ∀ file,
      answer.reply.error? ≠ some (.io file)) :
    f.snapshot = s ∧ Holds path s start ∧
      (StoreCall.answers calls f start).map (fun answer => (answer.reply, answer.store.snapshot)) =
        (StoreCall.answers calls (⟨s⟩ : MemoryStore) other).map
          (fun answer => (answer.reply, answer.store.snapshot)) ∧
      ∀ answer ∈ StoreCall.answers calls f start,
        Holds path answer.store.snapshot answer.disk := by
  unfold create at hcreate
  obtain ⟨hresult, hdisk⟩ := Prod.mk.inj hcreate
  obtain ⟨⟨⟩, hdone, rfl⟩ := Except.map_eq_ok.1 hresult
  have hholds : Holds path s start := holds_of_persist (Prod.ext hdone hdisk)
  exact ⟨rfl, hholds, answers_follow calls other hholds hquiet⟩

/-- An accepted insertion and a refused removal, a transaction that waits and is resumed, and what
can be read of the store after them. -/
def someCalls : List StoreCall :=
  [.change (.apply [.insert "machines" "0" ⟨[]⟩]), .change (.apply [.remove "machines" "1"]),
    .change (.stage [.remove "machines" "0"]), .find "machines" "0", .change .resume,
    .count "machines", .change (.drop "machines"), .names]

theorem created_answers_as_memory_some_calls :
    create emptyStore.path .empty (.ofDirectories ["/w"]) = (.ok emptyStore, emptyStoreDisk) ∧
      (∀ answer ∈ StoreCall.answers someCalls emptyStore emptyStoreDisk, ∀ file,
        answer.reply.error? ≠ some (.io file)) ∧
      (StoreCall.answers someCalls emptyStore emptyStoreDisk).map
          (fun answer => (answer.reply, answer.store.snapshot)) =
        (StoreCall.answers someCalls (⟨.empty⟩ : MemoryStore) (.ofDirectories [])).map
          (fun answer => (answer.reply, answer.store.snapshot)) := by
  have hcreate : create emptyStore.path .empty (.ofDirectories ["/w"]) =
      (.ok emptyStore, emptyStoreDisk) := Prod.ext rfl rfl
  have hquiet := answers_quiet someCalls emptyStoreDisk_spec.1
  exact ⟨hcreate, hquiet, (created_answers_as_memory someCalls hcreate hquiet).2.2.1⟩

end FileStore
end FleetUpgrade
