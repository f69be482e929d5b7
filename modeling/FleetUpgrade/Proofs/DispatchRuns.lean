import FleetUpgrade.Proofs.DispatchTasks
import Mathlib.Algebra.GroupWithZero.Nat
import Mathlib.Logic.Relation

/-! # Dispatching under every schedule

The tasks of a dispatch run at the same time. The collector waits until every task
has ended and then takes the messages from the channel.

`DispatchStep` lets any task move at any time. Every run of it comes to an end,
and what the collector then has is what `dispatch` gives for the order in which
the results arrived: for each target its own result, whatever the others do.
-/

namespace FleetUpgrade

/-- All tasks, the channel between them and the collector, and what the transport was asked. -/
structure DispatchState where
  tasks : List TaskPhase
  /-- messages that are on their way, oldest first -/
  channel : List (Nat × CommandResult)
  /-- messages that the collector took, in the order in which it did -/
  received : List (Nat × CommandResult)
  /-- requests to the transport in the order in which it saw them, each with the task it is of -/
  asked : List (Nat × TransportCall)

namespace DispatchState

def start (targets : List RemoteTarget) : DispatchState :=
  ⟨targets.map fun _ => .waiting, [], [], []⟩

def Over (s : DispatchState) : Prop :=
  (∀ phase ∈ s.tasks, phase.ended = true) ∧ s.channel = []

/-- A bound on the moves that are still to come. -/
def work (s : DispatchState) : Nat :=
  (s.tasks.map TaskPhase.work).sum + s.channel.length

def askedBy (s : DispatchState) (i : Nat) : List TransportCall :=
  s.asked.filterMap fun request => if request.1 = i then some request.2 else none

def results (s : DispatchState) (targets : List RemoteTarget) : List CommandResult :=
  List.zipWith (fun place target => place.getD (Dispatcher.aborted target))
    (Dispatcher.collect s.received (List.replicate targets.length none)) targets

theorem joined_or_going (s : DispatchState) :
    (∀ phase ∈ s.tasks, phase.ended = true) ∨
      ∃ (i : Nat) (phase : TaskPhase), s.tasks[i]? = some phase ∧ phase.ended = false := by
  by_cases hjoined : ∀ phase ∈ s.tasks, phase.ended = true
  · exact Or.inl hjoined
  · simp only [Classical.not_forall, Bool.not_eq_true] at hjoined
    obtain ⟨phase, hmem, hgoes⟩ := hjoined
    obtain ⟨i, hphase⟩ := List.mem_iff_getElem?.1 hmem
    exact Or.inr ⟨i, phase, hphase, hgoes⟩

theorem Over.sent_or_panicked {s : DispatchState} (hover : s.Over) {i : Nat}
    (hi : i < s.tasks.length) : s.tasks[i]? = some .sent ∨ s.tasks[i]? = some .panicked := by
  have hphase := List.getElem?_eq_getElem hi
  have hended := hover.1 s.tasks[i] (List.getElem_mem hi)
  cases hcase : s.tasks[i] with
  | sent => exact Or.inl (hphase.trans (congrArg some hcase))
  | panicked => exact Or.inr (hphase.trans (congrArg some hcase))
  | _ =>
      rw [hcase] at hended
      cases hended

end DispatchState

namespace Dispatcher

section

variable (d : Dispatcher) (job : RemoteJob)

/-- One move of a task or of the collector. -/
inductive DispatchStep (targets : List RemoteTarget) : DispatchState → DispatchState → Prop
  | move {s : DispatchState} {i : Nat} {target : RemoteTarget} {phase next : TaskPhase}
      {calls : List TransportCall} (htarget : targets[i]? = some target)
      (hphase : s.tasks[i]? = some phase) (hmove : d.TaskStep job target phase next calls) :
      DispatchStep targets s
        { s with
          tasks := s.tasks.set i next
          asked := s.asked ++ calls.map fun call => (i, call) }
  | send {s : DispatchState} {i : Nat} {r : CommandResult}
      (hphase : s.tasks[i]? = some (.ready r)) :
      DispatchStep targets s
        { s with tasks := s.tasks.set i .sent, channel := s.channel ++ [(i, r)] }
  | panic {s : DispatchState} {i : Nat} {phase : TaskPhase} (hphase : s.tasks[i]? = some phase)
      (hgoes : phase.ended = false) :
      DispatchStep targets s { s with tasks := s.tasks.set i .panicked }
  /-- the collector has joined all tasks before it takes a message -/
  | receive {s : DispatchState} {message : Nat × CommandResult}
      {rest : List (Nat × CommandResult)} (hjoined : ∀ phase ∈ s.tasks, phase.ended = true)
      (hchannel : s.channel = message :: rest) :
      DispatchStep targets s { s with channel := rest, received := s.received ++ [message] }

def Reaches (targets : List RemoteTarget) (s : DispatchState) : Prop :=
  Relation.ReflTransGen (d.DispatchStep job targets) (.start targets) s

end

/-! ## All tasks -/

section

variable {d : Dispatcher} {job : RemoteJob} {targets : List RemoteTarget}
  {s s' : DispatchState}

theorem filterMap_own (i j : Nat) (calls : List TransportCall) :
    (calls.map fun call => (i, call)).filterMap
        (fun request => if request.1 = j then some request.2 else none) =
      if i = j then calls else [] := by
  rw [List.filterMap_map]
  by_cases h : i = j
  · have hsome : ((fun request : Nat × TransportCall =>
        if request.1 = j then some request.2 else none) ∘ fun call => (i, call)) = some := by
      funext call
      exact if_pos h
    rw [hsome, List.filterMap_some, if_pos h]
  · have hnone : ((fun request : Nat × TransportCall =>
        if request.1 = j then some request.2 else none) ∘ fun call => (i, call)) =
          fun _ => none := by
      funext call
      exact if_neg h
    rw [hnone, if_neg h]
    exact List.filterMap_eq_nil_iff.2 fun _ _ => rfl

/-- What every state of a dispatch has: each task has asked for what its phase tells, and the
messages are the results of the tasks that sent one, of each just once. -/
structure Consistent (d : Dispatcher) (job : RemoteJob) (targets : List RemoteTarget)
    (s : DispatchState) : Prop where
  length : s.tasks.length = targets.length
  task : ∀ i target phase, targets[i]? = some target → s.tasks[i]? = some phase →
    Explained d job target (s.askedBy i) phase
  message : ∀ entry ∈ s.received ++ s.channel, s.tasks[entry.1]? = some .sent ∧
    ∀ target, targets[entry.1]? = some target → entry.2 = d.runJob job target
  delivered : ∀ i, s.tasks[i]? = some .sent → i ∈ (s.received ++ s.channel).map Prod.fst
  once : ((s.received ++ s.channel).map Prod.fst).Nodup

theorem consistent_start : Consistent d job targets (.start targets) where
  length := List.length_map _
  task i target phase htarget hphase := by
    simp only [DispatchState.start, List.getElem?_map, htarget, Option.map_some,
      Option.some.injEq] at hphase
    subst hphase
    rfl
  message entry hentry := absurd hentry List.not_mem_nil
  delivered i hi := by
    simp only [DispatchState.start, List.getElem?_map, Option.map_eq_some_iff] at hi
    obtain ⟨-, -, hsent⟩ := hi
    cases hsent
  once := List.nodup_nil

theorem Consistent.sent_of_message {i : Nat} (h : Consistent d job targets s)
    (hmem : i ∈ (s.received ++ s.channel).map Prod.fst) : s.tasks[i]? = some .sent := by
  obtain ⟨entry, hentry, rfl⟩ := List.mem_map.1 hmem
  exact (h.message entry hentry).1

/-- A task that has not ended and moves on to another phase than having sent keeps the rest. -/
theorem Consistent.set {i : Nat} {phase next : TaskPhase} {calls : List TransportCall}
    (h : Consistent d job targets s) (hphase : s.tasks[i]? = some phase)
    (hgoes : phase.ended = false) (hnext : next ≠ .sent)
    (hown : ∀ target, targets[i]? = some target →
      Explained d job target (s.askedBy i ++ calls) next) :
    Consistent d job targets
      { s with
        tasks := s.tasks.set i next
        asked := s.asked ++ calls.map fun call => (i, call) } := by
  have hlt : i < s.tasks.length := (List.getElem?_eq_some_iff.1 hphase).1
  have hself : (s.tasks.set i next)[i]? = some next := by
    rw [List.getElem?_set_self hlt]
  have hother : ∀ j, j ≠ i → (s.tasks.set i next)[j]? = s.tasks[j]? := fun j hj =>
    List.getElem?_set_ne (Ne.symm hj)
  have hasked : ∀ j, (s.asked ++ calls.map fun call => (i, call)).filterMap
      (fun request => if request.1 = j then some request.2 else none) =
        s.askedBy j ++ if i = j then calls else [] := fun j => by
    rw [List.filterMap_append, filterMap_own]
    rfl
  -- who has sent has ended, so it is another task
  have hsent : ∀ j, s.tasks[j]? = some .sent → j ≠ i := by
    rintro j hj rfl
    rw [hphase] at hj
    cases hj
    cases hgoes
  refine ⟨(List.length_set ..).trans h.length, ?_, ?_, ?_, h.once⟩
  · intro j target now htarget hnow
    rw [DispatchState.askedBy, hasked]
    by_cases hj : j = i
    · subst hj
      rw [hself] at hnow
      cases hnow
      rw [if_pos rfl]
      exact hown target htarget
    · rw [hother j hj] at hnow
      rw [if_neg (Ne.symm hj), List.append_nil]
      exact h.task j target now htarget hnow
  · intro entry hentry
    obtain ⟨hdone, hresult⟩ := h.message entry hentry
    exact ⟨(hother _ (hsent _ hdone)).trans hdone, hresult⟩
  · intro j hj
    by_cases hji : j = i
    · subst hji
      rw [hself] at hj
      exact absurd (Option.some.inj hj) hnext
    · rw [hother j hji] at hj
      exact h.delivered j hj

theorem Consistent.send {i : Nat} {r : CommandResult} (h : Consistent d job targets s)
    (hphase : s.tasks[i]? = some (.ready r)) :
    Consistent d job targets
      { s with tasks := s.tasks.set i .sent, channel := s.channel ++ [(i, r)] } := by
  have hlt : i < s.tasks.length := (List.getElem?_eq_some_iff.1 hphase).1
  have hself : (s.tasks.set i TaskPhase.sent)[i]? = some .sent := by
    rw [List.getElem?_set_self hlt]
  have hother : ∀ j, j ≠ i → (s.tasks.set i TaskPhase.sent)[j]? = s.tasks[j]? := fun j hj =>
    List.getElem?_set_ne (Ne.symm hj)
  have hfresh : i ∉ (s.received ++ s.channel).map Prod.fst := by
    intro hmem
    rw [h.sent_of_message hmem] at hphase
    cases hphase
  have hmessages : s.received ++ (s.channel ++ [(i, r)]) =
      (s.received ++ s.channel) ++ [(i, r)] := (List.append_assoc ..).symm
  refine ⟨(List.length_set ..).trans h.length, ?_, ?_, ?_, ?_⟩
  · intro j target now htarget hnow
    by_cases hj : j = i
    · subst hj
      rw [hself] at hnow
      cases hnow
      exact (h.task j target _ htarget hphase).2
    · rw [hother j hj] at hnow
      exact h.task j target now htarget hnow
  · intro entry hentry
    rw [hmessages] at hentry
    rcases List.mem_append.1 hentry with hold | hnew
    · obtain ⟨hdone, hresult⟩ := h.message entry hold
      refine ⟨?_, hresult⟩
      by_cases hj : entry.1 = i
      · rw [hj]
        exact hself
      · exact (hother _ hj).trans hdone
    · obtain rfl := List.mem_singleton.1 hnew
      exact ⟨hself, fun target htarget => (h.task i target _ htarget hphase).1⟩
  · intro j hj
    rw [hmessages, List.map_append, List.mem_append]
    by_cases hji : j = i
    · exact Or.inr (by simp [hji])
    · rw [hother j hji] at hj
      exact Or.inl (h.delivered j hj)
  · rw [hmessages, List.map_append]
    refine List.nodup_append.2 ⟨h.once, by simp, ?_⟩
    rintro j hj _ hsame rfl
    obtain rfl := List.mem_singleton.1 hsame
    exact hfresh hj

theorem Consistent.step (h : Consistent d job targets s)
    (hstep : d.DispatchStep job targets s s') : Consistent d job targets s' := by
  cases hstep with
  | @move i target phase next calls htarget hphase hmove =>
      refine h.set hphase hmove.goes hmove.not_sent fun same hsame => ?_
      obtain rfl := Option.some.inj (htarget.symm.trans hsame)
      exact hmove.explained (h.task i target phase htarget hphase)
  | send hphase => exact h.send hphase
  | @panic i phase hphase hgoes =>
      have hown : ∀ target, targets[i]? = some target →
          Explained d job target (s.askedBy i ++ []) .panicked := fun target htarget =>
        (List.append_nil (s.askedBy i)).symm ▸ (h.task i target phase htarget hphase).upto
      have hnext : TaskPhase.panicked ≠ .sent := nofun
      simpa using h.set hphase hgoes hnext hown
  | @receive message rest hjoined hchannel =>
      have hmessages : s.received ++ [message] ++ rest = s.received ++ s.channel := by
        rw [hchannel, List.append_assoc]
        rfl
      refine ⟨h.length, h.task, ?_, ?_, ?_⟩
      · rw [hmessages]
        exact h.message
      · rw [hmessages]
        exact h.delivered
      · rw [hmessages]
        exact h.once

theorem consistent_of_reaches (h : d.Reaches job targets s) : Consistent d job targets s := by
  induction h with
  | refl => exact consistent_start
  | tail _ hstep ih => exact ih.step hstep

/-! ## Every run ends -/

theorem sum_work_set {tasks : List TaskPhase} {i : Nat} {phase : TaskPhase} (next : TaskPhase)
    (h : tasks[i]? = some phase) :
    ((tasks.set i next).map TaskPhase.work).sum + phase.work =
      (tasks.map TaskPhase.work).sum + next.work := by
  induction tasks generalizing i with
  | nil => simp at h
  | cons first rest ih =>
      cases i with
      | zero =>
          obtain rfl : first = phase := by simpa using h
          simp only [List.set_cons_zero, List.map_cons, List.sum_cons]
          omega
      | succ i =>
          have hrest := ih (i := i) (by simpa using h)
          simp only [List.set_cons_succ, List.map_cons, List.sum_cons]
          omega

theorem TaskStep.work_lt {target : RemoteTarget} {phase next : TaskPhase}
    {calls : List TransportCall} (hmove : d.TaskStep job target phase next calls) :
    next.work < phase.work := by
  cases hmove with
  | askCopy hup => show 5 < 6; omega
  | copyFails hup hcopy => show 2 < 5; omega
  | copyDone hup hcopy => show 4 < 5; omega
  | askRun hphase => rcases hphase with ⟨rfl, -⟩ | rfl <;> decide
  | runFails hrun => show 2 < 3; omega
  | runDone hrun => show 2 < 3; omega

theorem DispatchStep.work_lt (hstep : d.DispatchStep job targets s s') : s'.work < s.work := by
  cases hstep with
  | @move i target phase next calls htarget hphase hmove =>
      have hsum := sum_work_set next hphase
      have hless := hmove.work_lt
      simp only [DispatchState.work]
      omega
  | @send i r hphase =>
      have hsum : _ + 2 = _ + 0 := sum_work_set .sent hphase
      simp only [DispatchState.work, List.length_append, List.length_singleton]
      omega
  | @panic i phase hphase hgoes =>
      have hsum : _ + phase.work = _ + 0 := sum_work_set .panicked hphase
      have hless := TaskPhase.work_pos hgoes
      simp only [DispatchState.work]
      omega
  | receive hjoined hchannel =>
      simp only [DispatchState.work, hchannel, List.length_cons]
      omega

theorem Consistent.moves {i : Nat} {target : RemoteTarget} {phase : TaskPhase}
    (h : Consistent d job targets s) (htarget : targets[i]? = some target)
    (hphase : s.tasks[i]? = some phase) (hgoes : phase.ended = false) :
    ∃ after, d.DispatchStep job targets s after := by
  have hexplained := h.task i target phase htarget hphase
  cases phase with
  | waiting =>
      cases hup : job.upload with
      | none => exact ⟨_, .move htarget hphase (.askRun (Or.inl ⟨rfl, hup⟩))⟩
      | some upload => exact ⟨_, .move htarget hphase (.askCopy hup)⟩
  | copying =>
      obtain ⟨upload, hup, -⟩ := hexplained
      cases hcopy : d.transport.copy upload.localPath (d.userHost target) upload.remotePath with
      | error e => exact ⟨_, .move htarget hphase (.copyFails hup hcopy)⟩
      | ok => exact ⟨_, .move htarget hphase (.copyDone hup hcopy)⟩
  | copied => exact ⟨_, .move htarget hphase (.askRun (Or.inr rfl))⟩
  | running =>
      cases hrun : d.transport.run (d.userHost target) job.script with
      | error e => exact ⟨_, .move htarget hphase (.runFails hrun)⟩
      | ok output => exact ⟨_, .move htarget hphase (.runDone hrun)⟩
  | ready r => exact ⟨_, .send hphase⟩
  | sent => cases hgoes
  | panicked => cases hgoes

theorem Consistent.over_or_step (h : Consistent d job targets s) :
    s.Over ∨ ∃ after, d.DispatchStep job targets s after := by
  rcases s.joined_or_going with hjoined | ⟨i, phase, hphase, hgoes⟩
  · cases hchannel : s.channel with
    | nil => exact Or.inl ⟨hjoined, hchannel⟩
    | cons message rest => exact Or.inr ⟨_, .receive hjoined hchannel⟩
  · have hlt : i < targets.length := by
      rw [← h.length]
      exact (List.getElem?_eq_some_iff.1 hphase).1
    exact Or.inr (h.moves (List.getElem?_eq_getElem hlt) hphase hgoes)

/-! ## What the collector has in the end -/

theorem length_collect (arrivals : List (Nat × CommandResult))
    (places : List (Option CommandResult)) : (collect arrivals places).length = places.length := by
  induction arrivals generalizing places with
  | nil => rfl
  | cons arrival rest ih => exact (ih _).trans (List.length_set ..)

theorem collect_of_absent {arrivals : List (Nat × CommandResult)}
    {places : List (Option CommandResult)} {i : Nat} (h : i ∉ arrivals.map Prod.fst) :
    (collect arrivals places)[i]? = places[i]? := by
  induction arrivals generalizing places with
  | nil => rfl
  | cons arrival rest ih =>
      rw [List.map_cons, List.mem_cons, not_or] at h
      exact (ih h.2).trans (List.getElem?_set_ne (Ne.symm h.1))

theorem collect_of_mem {arrivals : List (Nat × CommandResult)}
    {places : List (Option CommandResult)} {i : Nat} {r : CommandResult} (hlt : i < places.length)
    (hmem : i ∈ arrivals.map Prod.fst) (hall : ∀ entry ∈ arrivals, entry.1 = i → entry.2 = r) :
    (collect arrivals places)[i]? = some (some r) := by
  induction arrivals generalizing places with
  | nil => exact absurd hmem List.not_mem_nil
  | cons arrival rest ih =>
      change (collect rest (places.set arrival.1 (some arrival.2)))[i]? = _
      by_cases hrest : i ∈ rest.map Prod.fst
      · exact ih ((List.length_set ..).symm ▸ hlt) hrest fun entry hentry =>
          hall entry (List.mem_cons_of_mem _ hentry)
      · have hfirst : i = arrival.1 := by
          rw [List.map_cons, List.mem_cons] at hmem
          exact hmem.resolve_right hrest
        rw [collect_of_absent hrest, hfirst, List.getElem?_set_self (hfirst ▸ hlt),
          hall arrival List.mem_cons_self hfirst.symm]

theorem length_results (s : DispatchState) (targets : List RemoteTarget) :
    (s.results targets).length = targets.length := by
  unfold DispatchState.results
  rw [List.length_zipWith, length_collect, List.length_replicate, Nat.min_self]

theorem results_getElem? {i : Nat} {target : RemoteTarget} (htarget : targets[i]? = some target) :
    (s.results targets)[i]? =
      (collect s.received (List.replicate targets.length none))[i]?.map fun place =>
        place.getD (aborted target) := by
  unfold DispatchState.results
  rw [List.getElem?_zipWith, htarget]
  cases (collect s.received (List.replicate targets.length none))[i]? <;> rfl

/-- Each place holds the result of its task, or says that the task panicked. -/
theorem Consistent.answers (h : Consistent d job targets s) (hover : s.Over) {i : Nat}
    {target : RemoteTarget} (htarget : targets[i]? = some target) :
    ∃ r, (s.results targets)[i]? = some r ∧
      d.Answers job target (s.tasks[i]? = some .panicked) r := by
  have hlt : i < targets.length := (List.getElem?_eq_some_iff.1 htarget).1
  have hreceived : s.received ++ s.channel = s.received := by rw [hover.2, List.append_nil]
  rcases hover.sent_or_panicked (h.length.symm ▸ hlt) with hsent | hpanicked
  · have hmem := h.delivered i hsent
    rw [hreceived] at hmem
    have hplace : (collect s.received (List.replicate targets.length none))[i]? =
        some (some (d.runJob job target)) :=
      collect_of_mem (by simpa using hlt) hmem fun entry hentry hi =>
        (h.message entry (List.mem_append_left _ hentry)).2 target (hi ▸ htarget)
    refine ⟨d.runJob job target, ?_, answers_runJob (by simp [hsent])⟩
    rw [results_getElem? htarget, hplace]
    rfl
  · have habsent : i ∉ s.received.map Prod.fst := by
      intro hmem
      rw [← hreceived] at hmem
      rw [h.sent_of_message hmem] at hpanicked
      cases hpanicked
    refine ⟨aborted target, ?_, answers_aborted hpanicked⟩
    rw [results_getElem? htarget, collect_of_absent habsent, List.getElem?_replicate_of_lt hlt]
    rfl

/-- Messages that hold the results of their targets are what `dispatch` collects in their order. -/
theorem arrivals_of_order {received : List (Nat × CommandResult)}
    (hall : ∀ entry ∈ received, ∃ target, targets[entry.1]? = some target ∧
      entry.2 = d.runJob job target) :
    { d with finishing := fun _ => received.map Prod.fst }.arrivals job targets = received := by
  change ((received.map Prod.fst).filterMap fun i => targets[i]?.map fun target =>
    (i, target)).map (fun entry => (entry.1, d.runJob job entry.2)) = received
  induction received with
  | nil => rfl
  | cons entry rest ih =>
      obtain ⟨target, htarget, hresult⟩ := hall entry List.mem_cons_self
      simp only [List.map_cons, List.filterMap_cons, htarget, Option.map_some]
      rw [ih fun other hother => hall other (List.mem_cons_of_mem _ hother), ← hresult]

/-- The order in which results arrived is one that `dispatch` may be told. -/
theorem Consistent.results_eq (h : Consistent d job targets s) :
    s.results targets =
      { d with finishing := fun _ => s.received.map Prod.fst }.dispatch job targets := by
  have hall : ∀ entry ∈ s.received, ∃ target, targets[entry.1]? = some target ∧
      entry.2 = d.runJob job target := by
    intro entry hentry
    obtain ⟨hdone, hresult⟩ := h.message entry (List.mem_append_left _ hentry)
    have hlt : entry.1 < targets.length :=
      h.length ▸ (List.getElem?_eq_some_iff.1 hdone).1
    exact ⟨_, List.getElem?_eq_getElem hlt, hresult _ (List.getElem?_eq_getElem hlt)⟩
  unfold dispatch
  rw [arrivals_of_order hall]
  rfl

/-- What `dispatch` puts in a place is decided by its own target. -/
theorem dispatch_getElem? (d : Dispatcher) (job : RemoteJob) {i : Nat} {target : RemoteTarget}
    (htarget : targets[i]? = some target) :
    (d.dispatch job targets)[i]? =
      some (if i ∈ d.finishing targets then d.runJob job target else aborted target) := by
  have hlt : i < targets.length := (List.getElem?_eq_some_iff.1 htarget).1
  have harrival : ∀ entry ∈ d.arrivals job targets, entry.1 = i →
      entry.2 = d.runJob job target := by
    intro entry hentry hi
    obtain ⟨⟨j, other⟩, hfinished, rfl⟩ := List.mem_map.1 hentry
    obtain ⟨k, -, hk⟩ := List.mem_filterMap.1 hfinished
    obtain ⟨same, hsame, hpair⟩ := Option.map_eq_some_iff.1 hk
    cases hpair
    obtain rfl : j = i := hi
    obtain rfl := Option.some.inj (htarget.symm.trans hsame)
    rfl
  have hmem : i ∈ (d.arrivals job targets).map Prod.fst ↔ i ∈ d.finishing targets := by
    simp only [arrivals, finished, List.map_map, List.mem_map, List.mem_filterMap,
      Option.map_eq_some_iff, Function.comp_apply]
    constructor
    · rintro ⟨_, ⟨j, hj, other, -, rfl⟩, rfl⟩
      exact hj
    · exact fun hi => ⟨(i, target), ⟨i, hi, target, htarget, rfl⟩, rfl⟩
  unfold dispatch
  rw [List.getElem?_zipWith, htarget]
  by_cases hi : i ∈ d.finishing targets
  · rw [if_pos hi, collect_of_mem (by simpa using hlt) (hmem.2 hi) harrival]
    rfl
  · rw [if_neg hi, collect_of_absent (mt hmem.1 hi), List.getElem?_replicate_of_lt hlt]
    rfl

/-- Every target has a result, in its own place. -/
theorem targets_dispatch (d : Dispatcher) (job : RemoteJob) (targets : List RemoteTarget) :
    (d.dispatch job targets).map CommandResult.target = targets := by
  have hlength : (d.dispatch job targets).length = targets.length := by
    unfold dispatch
    rw [List.length_zipWith, length_collect, List.length_replicate, Nat.min_self]
  refine List.ext_getElem? fun i => ?_
  rw [List.getElem?_map]
  cases htarget : targets[i]? with
  | none =>
      rw [List.getElem?_eq_none_iff, ← hlength, ← List.getElem?_eq_none_iff] at htarget
      rw [htarget]
      rfl
  | some target =>
      rw [d.dispatch_getElem? job htarget, Option.map_some]
      split
      · rw [d.target_runJob]
      · rfl

/-! ## Every order of arrival has a run -/

inductive TaskRun (d : Dispatcher) (job : RemoteJob) (target : RemoteTarget) :
    TaskPhase → TaskPhase → List TransportCall → Prop
  | done {phase : TaskPhase} : TaskRun d job target phase phase []
  | move {phase next last : TaskPhase} {new calls : List TransportCall}
      (hmove : d.TaskStep job target phase next new)
      (hrest : TaskRun d job target next last calls) :
      TaskRun d job target phase last (new ++ calls)

theorem TaskRun.single {target : RemoteTarget} {phase next : TaskPhase}
    {calls : List TransportCall} (hmove : d.TaskStep job target phase next calls) :
    TaskRun d job target phase next calls :=
  List.append_nil calls ▸ .move hmove .done

theorem taskRun_runJob (d : Dispatcher) (job : RemoteJob) (target : RemoteTarget) :
    TaskRun d job target .waiting (.ready (d.runJob job target)) (d.callsOf job target) := by
  -- once the script may run, it takes two moves
  have hscript : ∀ phase, phase = .waiting ∧ job.upload = none ∨ phase = .copied →
      TaskRun d job target phase (.ready (d.told job target (d.runScript job target)))
        ([.run (d.userHost target) job.script] ++ []) := by
    intro phase hphase
    refine .move (.askRun hphase) (.single ?_)
    cases hrun : d.transport.run (d.userHost target) job.script with
    | error e => exact runScript_of_error hrun ▸ .runFails hrun
    | ok output => exact runScript_of_ok hrun ▸ .runDone hrun
  cases hup : job.upload with
  | none =>
      rw [runJob_of_copy_ok (copyOutcome_of_none hup), callsOf_of_none hup]
      exact hscript _ (Or.inl ⟨rfl, hup⟩)
  | some upload =>
      have hcopy : d.transport.copy upload.localPath (d.userHost target) upload.remotePath =
          d.copyOutcome job target := (copyOutcome_of_upload hup).symm
      rw [callsOf_of_upload hup]
      cases hout : d.copyOutcome job target with
      | error e =>
          rw [runJob_of_copy_error hout]
          exact .move (.askCopy hup) (.single (.copyFails hup (hcopy.trans hout)))
      | ok =>
          rw [runJob_of_copy_ok hout]
          have hrest := TaskRun.move (.copyDone hup (hcopy.trans hout))
            (hscript .copied (Or.inr rfl))
          exact .move (.askCopy hup) hrest

theorem TaskRun.lift {i : Nat} {target : RemoteTarget} {phase last : TaskPhase}
    {calls : List TransportCall} (hrun : TaskRun d job target phase last calls)
    (htarget : targets[i]? = some target) (hphase : s.tasks[i]? = some phase) :
    Relation.ReflTransGen (d.DispatchStep job targets) s
      { s with
        tasks := s.tasks.set i last
        asked := s.asked ++ calls.map fun call => (i, call) } := by
  have hlt : i < s.tasks.length := (List.getElem?_eq_some_iff.1 hphase).1
  induction hrun generalizing s with
  | @done phase =>
      have hset : s.tasks.set i phase = s.tasks := by
        rw [← (List.getElem?_eq_some_iff.1 hphase).2, List.set_getElem_self]
      rw [hset, List.map_nil, List.append_nil]
  | @move phase next last new calls hmove hrest ih =>
      have hstep := DispatchStep.move htarget hphase hmove
      refine .head hstep ?_
      have hnext := ih (s := { s with
          tasks := s.tasks.set i next
          asked := s.asked ++ new.map fun call => (i, call) })
        (List.getElem?_set_self hlt) (by simpa using hlt)
      simpa using hnext

theorem run_task (d : Dispatcher) (job : RemoteJob) {i : Nat} {target : RemoteTarget}
    (htarget : targets[i]? = some target)
    (hphase : s.tasks[i]? = some .waiting) :
    Relation.ReflTransGen (d.DispatchStep job targets) s
      { s with
        tasks := s.tasks.set i .sent
        channel := s.channel ++ [(i, d.runJob job target)]
        asked := s.asked ++ (d.callsOf job target).map fun call => (i, call) } := by
  have hlt : i < s.tasks.length := (List.getElem?_eq_some_iff.1 hphase).1
  have hrun := (taskRun_runJob d job target).lift htarget hphase
  have hsend := hrun.tail (.send (List.getElem?_set_self hlt))
  simpa only [List.set_set] using hsend

/-- Tasks that have not started can send their results in any order. -/
theorem exists_run_sending (d : Dispatcher) (job : RemoteJob) {order : List Nat}
    (hnodup : order.Nodup) (hlength : s.tasks.length = targets.length)
    (hwaiting : ∀ i ∈ order, s.tasks[i]? = some .waiting) :
    ∃ after, Relation.ReflTransGen (d.DispatchStep job targets) s after ∧
      after.received = s.received ∧
      after.channel.map Prod.fst = s.channel.map Prod.fst ++ order := by
  induction order generalizing s with
  | nil => exact ⟨s, .refl, rfl, (List.append_nil _).symm⟩
  | cons i rest ih =>
      obtain ⟨hfresh, hrest⟩ := List.nodup_cons.1 hnodup
      have hphase := hwaiting i List.mem_cons_self
      have hlt : i < s.tasks.length := (List.getElem?_eq_some_iff.1 hphase).1
      obtain ⟨target, htarget⟩ : ∃ target, targets[i]? = some target :=
        ⟨_, List.getElem?_eq_getElem (hlength ▸ hlt)⟩
      obtain ⟨after, hafter, hreceived, hchannel⟩ := ih hrest
        (s := { s with
          tasks := s.tasks.set i .sent
          channel := s.channel ++ [(i, d.runJob job target)]
          asked := s.asked ++ (d.callsOf job target).map fun call => (i, call) })
        ((List.length_set ..).trans hlength) fun j hj =>
          (List.getElem?_set_ne fun (hij : i = j) => hfresh (hij ▸ hj)).trans
            (hwaiting j (List.mem_cons_of_mem i hj))
      refine ⟨after, (run_task d job htarget hphase).trans hafter, hreceived, ?_⟩
      rw [hchannel, List.map_append, List.append_assoc]
      rfl

/-- All tasks that have not ended can panic. -/
theorem exists_run_panicking (d : Dispatcher) (job : RemoteJob) (targets : List RemoteTarget)
    (s : DispatchState) :
    ∃ after, Relation.ReflTransGen (d.DispatchStep job targets) s after ∧
      after.received = s.received ∧ after.channel = s.channel ∧
      ∀ phase ∈ after.tasks, phase.ended = true := by
  -- a panic lowers the work that is left, as every move does
  induction hwork : s.work using Nat.strongRecOn generalizing s with
  | ind work ih =>
      rcases s.joined_or_going with hjoined | ⟨i, phase, hphase, hgoes⟩
      · exact ⟨s, .refl, rfl, rfl, hjoined⟩
      · have hstep : d.DispatchStep job targets s _ := .panic hphase hgoes
        obtain ⟨after, hafter, hreceived, hchannel, hjoined⟩ := ih _ (hwork ▸ hstep.work_lt) _ rfl
        exact ⟨after, .head hstep hafter, hreceived, hchannel, hjoined⟩

theorem run_receiving (hjoined : ∀ phase ∈ s.tasks, phase.ended = true) :
    Relation.ReflTransGen (d.DispatchStep job targets) s
      { s with channel := [], received := s.received ++ s.channel } := by
  obtain ⟨tasks, channel, received, asked⟩ := s
  induction channel generalizing received with
  | nil => simpa using Relation.ReflTransGen.refl
  | cons message rest ih =>
      have hstep : d.DispatchStep job targets ⟨tasks, message :: rest, received, asked⟩
          ⟨tasks, rest, received ++ [message], asked⟩ := .receive hjoined rfl
      simpa using Relation.ReflTransGen.head hstep (ih (received ++ [message]) hjoined)

/-- Any of the tasks can be the ones that finish, and in any order. -/
theorem exists_run_of_order (d : Dispatcher) (job : RemoteJob) {order : List Nat}
    (hnodup : order.Nodup) (hvalid : ∀ i ∈ order, i < targets.length) :
    ∃ s, d.Reaches job targets s ∧ s.Over ∧ s.received.map Prod.fst = order := by
  have hlength : (DispatchState.start targets).tasks.length = targets.length := List.length_map _
  have hwaiting : ∀ i ∈ order, (DispatchState.start targets).tasks[i]? = some .waiting := by
    intro i hi
    rw [DispatchState.start, List.getElem?_map, List.getElem?_eq_getElem (hvalid i hi)]
    rfl
  obtain ⟨sending, hsending, hreceived, hchannel⟩ :=
    exists_run_sending d job hnodup hlength hwaiting
  obtain ⟨joined, hpanicking, hreceived_eq, hchannel_eq, hjoined⟩ :=
    exists_run_panicking d job targets sending
  refine ⟨_, (hsending.trans hpanicking).trans (run_receiving hjoined), ⟨hjoined, rfl⟩, ?_⟩
  rw [hreceived_eq, hreceived, hchannel_eq, List.map_append, hchannel]
  rfl

end

/-! ## Results do not depend on the schedule -/

section

variable {d other : Dispatcher} {job : RemoteJob} {targets : List RemoteTarget}
  {target : RemoteTarget} {s : DispatchState}

structure Collected (d : Dispatcher) (job : RemoteJob) (targets : List RemoteTarget)
    (s : DispatchState) : Prop where
  length_results : (s.results targets).length = targets.length
  answers : ∀ (i : Nat) target, targets[i]? = some target → ∃ r, (s.results targets)[i]? = some r ∧
    d.Answers job target (s.tasks[i]? = some .panicked) r
  asked_all : ∀ (i : Nat) target, targets[i]? = some target → s.tasks[i]? ≠ some .panicked →
    s.askedBy i = d.callsOf job target
  nodup_order : (s.received.map Prod.fst).Nodup
  mem_order_iff : ∀ i : Nat, i < targets.length →
    (i ∈ s.received.map Prod.fst ↔ s.tasks[i]? ≠ some .panicked)
  results_eq : s.results targets =
    { d with finishing := fun _ => s.received.map Prod.fst }.dispatch job targets

theorem Consistent.collected (h : Consistent d job targets s) (hover : s.Over) :
    Collected d job targets s := by
  have hreceived : s.received ++ s.channel = s.received := by rw [hover.2, List.append_nil]
  have hsent : ∀ i : Nat, i < targets.length → s.tasks[i]? ≠ some .panicked →
      s.tasks[i]? = some .sent := fun i hi hno =>
    (hover.sent_or_panicked (h.length.symm ▸ hi)).resolve_right hno
  refine ⟨length_results s targets, fun i target htarget => h.answers hover htarget,
    fun i target htarget hno => ?_, hreceived ▸ h.once, fun i hi => ⟨?_, fun hno => ?_⟩,
    h.results_eq⟩
  · exact h.task i target .sent htarget (hsent i (List.getElem?_eq_some_iff.1 htarget).1 hno)
  · intro hmem hpanicked
    rw [← hreceived] at hmem
    rw [h.sent_of_message hmem] at hpanicked
    cases hpanicked
  · exact hreceived ▸ h.delivered i (hsent i hi hno)

/-- Two dispatches that are over agree on a target that is the same for both and whose tasks both
panicked or both did not. -/
theorem Collected.results_agree {others : List RemoteTarget} {t : DispatchState} {i j : Nat}
    (h : Collected d job targets s) (hother : Collected other job others t)
    (htarget : targets[i]? = some target) (htarget' : others[j]? = some target)
    (hsame : SameFor d other job target)
    (hpanicked : s.tasks[i]? = some .panicked ↔ t.tasks[j]? = some .panicked) :
    (s.results targets)[i]? = (t.results others)[j]? := by
  obtain ⟨r, hr, hanswer⟩ := h.answers i target htarget
  obtain ⟨r', hr', hanswer'⟩ := hother.answers j target htarget'
  rw [hr, hr']
  by_cases hpanic : s.tasks[i]? = some .panicked
  · rw [hanswer.abandoned hpanic, hanswer'.abandoned (hpanicked.1 hpanic)]
  · rw [hanswer.answered hpanic, hanswer'.answered (mt hpanicked.2 hpanic), hsame.runJob_eq]

/-- A dispatch comes to an end under every schedule, whichever tasks panic, and any of the tasks can
be the ones that finish, in any order. At every moment the transport has seen of each target at most
the copy and then the script, and no script if the copy fails. In the end there is for each target
its own result, which is what another dispatch has for the same target. -/
theorem dispatch_of_every_schedule (d : Dispatcher) (job : RemoteJob)
    (targets : List RemoteTarget) :
    WellFounded (fun after before => d.DispatchStep job targets before after) ∧
      (∀ order : List Nat, order.Nodup → (∀ i ∈ order, i < targets.length) →
        ∃ s, d.Reaches job targets s ∧ s.Over ∧ s.received.map Prod.fst = order) ∧
      ∀ s, d.Reaches job targets s →
        (s.Over ∨ ∃ after, d.DispatchStep job targets s after) ∧
        (∀ (i : Nat) target, targets[i]? = some target → d.Attended job target (s.askedBy i)) ∧
        (s.Over → d.Collected job targets s ∧
          ∀ (other : Dispatcher) (others : List RemoteTarget) (t : DispatchState),
            other.Reaches job others t → t.Over → ∀ (i j : Nat) target, targets[i]? = some target →
            others[j]? = some target → d.SameFor other job target →
            (s.tasks[i]? = some .panicked ↔ t.tasks[j]? = some .panicked) →
            (s.results targets)[i]? = (t.results others)[j]?) := by
  refine ⟨?_, fun order hnodup hvalid => ?_, fun s hreaches => ?_⟩
  · exact Subrelation.wf (fun hstep => hstep.work_lt) (measure DispatchState.work).wf
  · exact exists_run_of_order d job hnodup hvalid
  · have h := consistent_of_reaches hreaches
    refine ⟨h.over_or_step, fun i target htarget => ?_, fun hover => ⟨h.collected hover, ?_⟩⟩
    · have hlt : i < s.tasks.length :=
        h.length.symm ▸ (List.getElem?_eq_some_iff.1 htarget).1
      exact attended_of_upto (h.task i target _ htarget (List.getElem?_eq_getElem hlt)).upto
    · intro other others t ht htover i j target hi hj hsame hpanicked
      exact (h.collected hover).results_agree ((consistent_of_reaches ht).collected htover)
        hi hj hsame hpanicked

def fullDisks : Dispatcher :=
  ⟨defaultUser, .ofHosts fun _ => some (.copyFails "disk full"), inOrder⟩

def uploadingJob : RemoteJob := ⟨"true", some ⟨"agent.tgz", "agent.tgz"⟩⟩

/-- A machine that a dispatch is given twice. -/
def machineTarget : RemoteTarget := ⟨"10.0.0.1", ["machine", "0"]⟩

/-- The first task panics and the second one tells of its copy, with nothing run on the host. -/
theorem dispatch_of_same_machine_twice :
    ∃ s, fullDisks.Reaches uploadingJob [machineTarget, machineTarget] s ∧ s.Over ∧
      (∃ r, s.results [machineTarget, machineTarget] = [aborted machineTarget, r] ∧
        r.error = some (.copy "agent.tgz" "ubuntu@10.0.0.1:~/agent.tgz" "disk full") ∧ r.code = 0) ∧
      s.askedBy 1 = [.copy "ubuntu@10.0.0.1" "agent.tgz" "~/agent.tgz"] := by
  obtain ⟨-, horders, hruns⟩ :=
    dispatch_of_every_schedule fullDisks uploadingJob [machineTarget, machineTarget]
  obtain ⟨s, hreaches, hover, horder⟩ := horders [1] (by decide) (by decide)
  obtain ⟨hcollected, -⟩ := (hruns s hreaches).2.2 hover
  have hpanicked : s.tasks[0]? = some .panicked := by
    have hmem := hcollected.mem_order_iff 0 (by decide)
    rw [horder] at hmem
    exact Classical.not_not.1 fun h => absurd (hmem.2 h) (by decide)
  have hfinished : s.tasks[1]? ≠ some .panicked := by
    have hmem := hcollected.mem_order_iff 1 (by decide)
    rw [horder] at hmem
    exact hmem.1 (by decide)
  obtain ⟨r₀, hr₀, hfirst⟩ := hcollected.answers 0 machineTarget rfl
  obtain ⟨r₁, hr₁, hsecond⟩ := hcollected.answers 1 machineTarget rfl
  obtain ⟨herror, hcode⟩ := hsecond.copy_failed hfinished _ rfl
  refine ⟨s, hreaches, hover, ⟨r₁, ?_, herror.trans (by decide), hcode⟩, ?_⟩
  · rw [hfirst.abandoned hpanicked] at hr₀
    have hlength := hcollected.length_results
    match hresults : s.results [machineTarget, machineTarget] with
    | [a, b] =>
        rw [hresults] at hr₀ hr₁
        rw [Option.some.inj hr₀, Option.some.inj hr₁]
    | [] => rw [hresults] at hlength; cases hlength
    | [_] => rw [hresults] at hlength; cases hlength
    | _ :: _ :: _ :: _ => rw [hresults] at hlength; cases hlength
  · exact (hcollected.asked_all 1 machineTarget rfl hfinished).trans (by decide)

end

end Dispatcher
end FleetUpgrade
