import FleetUpgrade.Remote.Dispatch

/-! # The task of one target

A task asks the transport for the copy and for the script, turns the answers into
a result and sends it with the index of its target; it may panic at any point
before that. `TaskStep` is one move of a task, and `Explained` says what its phase
tells of the requests and of the result so far.
-/

namespace FleetUpgrade

/-- How far the task of a target is. -/
inductive TaskPhase where
  | waiting
  /-- the copy was asked for -/
  | copying
  /-- the copy succeeded -/
  | copied
  /-- the script was asked for -/
  | running
  /-- the result is not sent yet -/
  | ready (result : CommandResult)
  | sent
  | panicked
  deriving DecidableEq

def TaskPhase.ended : TaskPhase → Bool
  | .sent => true
  | .panicked => true
  | _ => false

/-- A bound on the moves that a task still makes, and its message with it. -/
def TaskPhase.work : TaskPhase → Nat
  | .waiting => 6
  | .copying => 5
  | .copied => 4
  | .running => 3
  | .ready _ => 2
  | .sent => 0
  | .panicked => 0

theorem TaskPhase.work_pos {phase : TaskPhase} (h : phase.ended = false) : 0 < phase.work := by
  cases phase with
  | sent => cases h
  | panicked => cases h
  | _ => exact Nat.succ_pos _

namespace Dispatcher

section

variable (d : Dispatcher) (job : RemoteJob)

def copyLine (upload : Upload) (target : RemoteTarget) : String :=
  "scp " ++ upload.localPath ++ " " ++ d.userHost target ++ ":" ++ upload.remotePath

def told (target : RemoteTarget) (r : CommandResult) : CommandResult :=
  match job.upload with
  | none => r
  | some upload => r.withFirstLine (d.copyLine upload target)

/-- One move of the task of a target, with what it asks of the transport. -/
inductive TaskStep (target : RemoteTarget) : TaskPhase → TaskPhase → List TransportCall → Prop
  | askCopy {upload : Upload} (hup : job.upload = some upload) :
      TaskStep target .waiting .copying
        [.copy (d.userHost target) upload.localPath upload.remotePath]
  | copyFails {upload : Upload} {e : TransportError} (hup : job.upload = some upload)
      (hcopy : d.transport.copy upload.localPath (d.userHost target) upload.remotePath =
        .error e) :
      TaskStep target .copying (.ready (d.told job target (.failed target e))) []
  | copyDone {upload : Upload} (hup : job.upload = some upload)
      (hcopy : d.transport.copy upload.localPath (d.userHost target) upload.remotePath = .ok ()) :
      TaskStep target .copying .copied []
  | askRun {phase : TaskPhase} (hphase : phase = .waiting ∧ job.upload = none ∨ phase = .copied) :
      TaskStep target phase .running [.run (d.userHost target) job.script]
  | runFails {e : TransportError}
      (hrun : d.transport.run (d.userHost target) job.script = .error e) :
      TaskStep target .running (.ready (d.told job target (.failed target e))) []
  | runDone {output : RunOutput}
      (hrun : d.transport.run (d.userHost target) job.script = .ok output) :
      TaskStep target .running (.ready (d.told job target (.completed target output))) []

def copyOutcome (target : RemoteTarget) : Except TransportError Unit :=
  match job.upload with
  | none => .ok ()
  | some upload =>
      d.transport.copy upload.localPath (d.userHost target) upload.remotePath

/-- What the transport may see of one task. -/
structure Attended (target : RemoteTarget) (calls : List TransportCall) : Prop where
  upto : calls <+: d.callsOf job target
  copy_first : ∀ upload, job.upload = some upload → ∀ call ∈ calls.head?,
    call = .copy (d.userHost target) upload.localPath upload.remotePath
  no_script : ∀ e, d.copyOutcome job target = .error e → ∀ call ∈ calls, call.script? = none

/-- What the result for one target is, given whether its task panicked. -/
structure Answers (target : RemoteTarget) (panicked : Prop) (r : CommandResult) : Prop where
  target_eq : r.target = target
  abandoned : panicked → r = aborted target
  answered : ¬panicked → r = d.runJob job target
  copy_failed : ¬panicked → ∀ e, d.copyOutcome job target = .error e →
    r.error = some e ∧ r.code = 0
  run_failed : ¬panicked → d.copyOutcome job target = .ok () →
    ∀ e, d.transport.run (d.userHost target) job.script = .error e →
      r.error = some e ∧ r.code = 0
  exited : ¬panicked → d.copyOutcome job target = .ok () →
    ∀ output, d.transport.run (d.userHost target) job.script = .ok output →
      r.error = none ∧ r.code = output.code

end

/-! ## One task -/

section

variable {d : Dispatcher} {job : RemoteJob} {target : RemoteTarget} {calls new : List TransportCall}
  {phase next : TaskPhase} {r : CommandResult}

theorem told_fields (d : Dispatcher) (job : RemoteJob) (target : RemoteTarget) (r : CommandResult) :
    (d.told job target r).target = r.target ∧ (d.told job target r).code = r.code ∧
      (d.told job target r).error = r.error := by
  unfold told CommandResult.withFirstLine
  split
  · exact ⟨rfl, rfl, rfl⟩
  · split <;> exact ⟨rfl, rfl, rfl⟩

theorem copyOutcome_of_upload {upload : Upload} (hup : job.upload = some upload) :
    d.copyOutcome job target =
      d.transport.copy upload.localPath (d.userHost target) upload.remotePath := by
  unfold copyOutcome
  simp only [hup]

theorem copyOutcome_of_none (hup : job.upload = none) : d.copyOutcome job target = .ok () := by
  unfold copyOutcome
  simp only [hup]

theorem runScript_of_error {e : TransportError}
    (hrun : d.transport.run (d.userHost target) job.script = .error e) :
    d.runScript job target = .failed target e := by
  unfold runScript
  simp only [hrun]

theorem runScript_of_ok {output : RunOutput}
    (hrun : d.transport.run (d.userHost target) job.script = .ok output) :
    d.runScript job target = .completed target output := by
  unfold runScript
  simp only [hrun]

theorem runJob_of_copy_error {e : TransportError} (h : d.copyOutcome job target = .error e) :
    d.runJob job target = d.told job target (.failed target e) := by
  cases hup : job.upload with
  | none => cases h.symm.trans (copyOutcome_of_none hup)
  | some upload =>
      rw [copyOutcome_of_upload hup] at h
      unfold runJob told
      simp only [hup, h]
      rfl

theorem runJob_of_copy_ok (h : d.copyOutcome job target = .ok ()) :
    d.runJob job target = d.told job target (d.runScript job target) := by
  cases hup : job.upload with
  | none =>
      unfold runJob told
      simp only [hup]
  | some upload =>
      rw [copyOutcome_of_upload hup] at h
      unfold runJob told
      simp only [hup, h]
      rfl

theorem target_runJob (d : Dispatcher) (job : RemoteJob) (target : RemoteTarget) :
    (d.runJob job target).target = target := by
  cases hcopy : d.copyOutcome job target with
  | error e =>
      rw [runJob_of_copy_error hcopy, (d.told_fields job target _).1]
      rfl
  | ok =>
      rw [runJob_of_copy_ok hcopy, (d.told_fields job target _).1]
      unfold runScript
      split <;> rfl

/-- What a task has asked for by a phase, and the result that it then has. -/
def Explained (d : Dispatcher) (job : RemoteJob) (target : RemoteTarget)
    (calls : List TransportCall) : TaskPhase → Prop
  | .waiting => calls = []
  | .copying => ∃ upload, job.upload = some upload ∧
      calls = [.copy (d.userHost target) upload.localPath upload.remotePath]
  | .copied => d.copyOutcome job target = .ok () ∧ ∃ upload, job.upload = some upload ∧
      calls = [.copy (d.userHost target) upload.localPath upload.remotePath]
  | .running => d.copyOutcome job target = .ok () ∧ calls = d.callsOf job target
  | .ready r => r = d.runJob job target ∧ calls = d.callsOf job target
  | .sent => calls = d.callsOf job target
  | .panicked => calls <+: d.callsOf job target

theorem callsOf_of_none (hup : job.upload = none) :
    d.callsOf job target = [.run (d.userHost target) job.script] := by
  unfold callsOf
  simp only [hup]

theorem callsOf_of_upload {upload : Upload} (hup : job.upload = some upload) :
    d.callsOf job target =
      .copy (d.userHost target) upload.localPath upload.remotePath ::
        match d.copyOutcome job target with
        | .error _ => []
        | .ok _ => [.run (d.userHost target) job.script] := by
  unfold callsOf copyOutcome
  cases hcopy : d.transport.copy upload.localPath (d.userHost target) upload.remotePath with
  | error e => simp only [hup, hcopy]
  | ok copied => simp only [hup, hcopy]

/-- A task asks for nothing but its calls, in their order. -/
theorem Explained.upto (h : Explained d job target calls phase) :
    calls <+: d.callsOf job target := by
  cases phase with
  | waiting =>
      rw [show calls = [] from h]
      exact List.nil_prefix
  | copying =>
      obtain ⟨upload, hup, rfl⟩ := h
      rw [callsOf_of_upload hup]
      exact List.prefix_append [_] _
  | copied =>
      obtain ⟨-, upload, hup, rfl⟩ := h
      rw [callsOf_of_upload hup]
      exact List.prefix_append [_] _
  | running => exact h.2 ▸ List.prefix_rfl
  | ready r => exact h.2 ▸ List.prefix_rfl
  | sent => exact (show calls = _ from h) ▸ List.prefix_rfl
  | panicked => exact h

theorem TaskStep.goes (hmove : d.TaskStep job target phase next new) : phase.ended = false := by
  cases hmove with
  | askRun hphase => rcases hphase with ⟨rfl, -⟩ | rfl <;> rfl
  | askCopy => rfl
  | copyFails => rfl
  | copyDone => rfl
  | runFails => rfl
  | runDone => rfl

theorem TaskStep.not_sent (hmove : d.TaskStep job target phase next new) : next ≠ .sent := by
  cases hmove <;> nofun

theorem TaskStep.explained (hmove : d.TaskStep job target phase next new)
    (h : Explained d job target calls phase) : Explained d job target (calls ++ new) next := by
  cases hmove with
  | askCopy hup =>
      rw [show calls = [] from h]
      exact ⟨_, hup, rfl⟩
  | @copyFails upload e hup hcopy =>
      obtain ⟨same, hsame, rfl⟩ := h
      obtain rfl := Option.some.inj (hup.symm.trans hsame)
      have hout := (copyOutcome_of_upload hup).trans hcopy
      refine ⟨(runJob_of_copy_error hout).symm, ?_⟩
      rw [callsOf_of_upload hup, hout, List.append_nil]
  | copyDone hup hcopy =>
      obtain ⟨same, hsame, rfl⟩ := h
      obtain rfl := Option.some.inj (hup.symm.trans hsame)
      exact ⟨(copyOutcome_of_upload hup).trans hcopy, _, hup, List.append_nil _⟩
  | askRun hphase =>
      rcases hphase with ⟨rfl, hup⟩ | rfl
      · rw [show calls = [] from h]
        exact ⟨copyOutcome_of_none hup, (callsOf_of_none hup).symm⟩
      · obtain ⟨hout, upload, hup, rfl⟩ := h
        refine ⟨hout, ?_⟩
        rw [callsOf_of_upload hup, hout]
        rfl
  | runFails hrun =>
      refine ⟨?_, (List.append_nil calls).trans h.2⟩
      rw [runJob_of_copy_ok h.1, runScript_of_error hrun]
  | runDone hrun =>
      refine ⟨?_, (List.append_nil calls).trans h.2⟩
      rw [runJob_of_copy_ok h.1, runScript_of_ok hrun]

theorem attended_of_upto (h : calls <+: d.callsOf job target) : d.Attended job target calls where
  upto := h
  copy_first upload hup call hcall := by
    rw [callsOf_of_upload hup] at h
    cases calls with
    | nil => cases hcall
    | cons first rest =>
        cases hcall
        exact (List.cons_prefix_cons.1 h).1
  no_script e he call hcall := by
    cases hup : job.upload with
    | none => cases he.symm.trans (copyOutcome_of_none hup)
    | some upload =>
        have hmem := h.subset hcall
        rw [callsOf_of_upload hup, he] at hmem
        rw [List.mem_singleton.1 hmem]
        rfl

theorem answers_aborted (h : panicked) : d.Answers job target panicked (aborted target) where
  target_eq := rfl
  abandoned _ := rfl
  answered hno := absurd h hno
  copy_failed hno := absurd h hno
  run_failed hno := absurd h hno
  exited hno := absurd h hno

theorem answers_runJob (h : ¬panicked) :
    d.Answers job target panicked (d.runJob job target) where
  target_eq := by
    cases hout : d.copyOutcome job target with
    | error e =>
        rw [runJob_of_copy_error hout]
        exact (told_fields d job target _).1
    | ok =>
        rw [runJob_of_copy_ok hout]
        refine (told_fields d job target _).1.trans ?_
        unfold runScript
        split <;> rfl
  abandoned hyes := absurd hyes h
  answered _ := rfl
  copy_failed _ e he := by
    rw [runJob_of_copy_error he]
    obtain ⟨-, hcode, herror⟩ := told_fields d job target (.failed target e)
    exact ⟨herror, hcode⟩
  run_failed _ hcopy e he := by
    rw [runJob_of_copy_ok hcopy]
    obtain ⟨-, hcode, herror⟩ := told_fields d job target (d.runScript job target)
    rw [hcode, herror, runScript_of_error he]
    exact ⟨rfl, rfl⟩
  exited _ hcopy output ho := by
    rw [runJob_of_copy_ok hcopy]
    obtain ⟨-, hcode, herror⟩ := told_fields d job target (d.runScript job target)
    rw [hcode, herror, runScript_of_ok ho]
    exact ⟨rfl, rfl⟩

end

/-! ## What the result depends on -/

section

variable {d other : Dispatcher} {job : RemoteJob} {target : RemoteTarget}

/-- What two dispatchers have in common when a target is the same for both. -/
structure SameFor (d other : Dispatcher) (job : RemoteJob) (target : RemoteTarget) : Prop where
  userHost_eq : d.userHost target = other.userHost target
  copy_eq : d.copyOutcome job target = other.copyOutcome job target
  run_eq : d.transport.run (d.userHost target) job.script =
    other.transport.run (other.userHost target) job.script

theorem SameFor.runJob_eq (h : SameFor d other job target) :
    d.runJob job target = other.runJob job target := by
  have htold : ∀ r, d.told job target r = other.told job target r := by
    intro r
    unfold told copyLine
    rw [h.userHost_eq]
  cases hcopy : d.copyOutcome job target with
  | error e =>
      rw [runJob_of_copy_error hcopy, runJob_of_copy_error (h.copy_eq.symm.trans hcopy), htold]
  | ok =>
      rw [runJob_of_copy_ok hcopy, runJob_of_copy_ok (h.copy_eq.symm.trans hcopy), htold]
      unfold runScript
      rw [h.run_eq]

end

end Dispatcher
end FleetUpgrade
