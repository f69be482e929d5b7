import FleetUpgrade.Fleet.Commands
import FleetUpgrade.Proofs.DispatchRuns

/-! # What commands do in a session

A command is walked through part by part: what its first part leaves is where the
next one begins. Every command for the machines ends by sending one job to a list
of them, so it is enough to know the job and the list.
-/

namespace FleetUpgrade.Command

section

variable {σ α β : Type} {session session' : Session σ} {a : α} {c : Command σ α}
  {next : α → Command σ β}

/-- A command goes on where its first part succeeded. -/
theorem run_bind_ok (h : c.run session = (.ok a, session')) :
    (c >>= next).run session = (next a).run session' := by
  simp only [ExceptT.run, bind, StateT.bind, ExceptT.bind, ExceptT.mk] at h ⊢
  rw [h]
  rfl

theorem run_bind_error {e : CommandError} (h : c.run session = (.error e, session')) :
    (c >>= next).run session = (.error e, session') := by
  simp only [ExceptT.run, bind, StateT.bind, ExceptT.bind, ExceptT.mk] at h ⊢
  rw [h]
  rfl

theorem run_get : (get : Command σ (Session σ)).run session = (.ok session, session) := rfl

theorem run_set : (set session' : Command σ PUnit).run session = (.ok ⟨⟩, session') := rfl

theorem run_ofInventory {result : Except InventoryError α} (h : result = .ok a) :
    (ofInventory result : Command σ α).run session = (.ok a, session) := by
  rw [h]
  rfl

theorem print_keeps (text : String) (session : Session σ) :
    ∃ output, ((print text).run session).2 = { session with output := output } := by
  unfold print
  rw [run_bind_ok run_get]
  cases hwrite : session.output.write? text with
  | none => exact ⟨session.output, rfl⟩
  | some output => exact ⟨output, rfl⟩

end

variable {σ : Type} {session : Session σ} {job : RemoteJob} {machines : List FleetMachine}

/-- A command sends a job to machines: it does so as `dispatch` does, leaves all but the output and
the calls as they were, and has one result for each machine, in their order. -/
structure Sends (c : Command σ Unit) (job : RemoteJob) (machines : List FleetMachine)
    (session : Session σ) : Prop where
  runs : c.run session = (dispatch job machines).run session
  asks : ∃ output, (c.run session).2 =
    { session with
      output := output
      calls := session.calls ++ session.dispatcher.calls job (machines.map FleetMachine.target) }
  answered : (session.dispatcher.dispatch job (machines.map FleetMachine.target)).map
    CommandResult.target = machines.map FleetMachine.target

/-- The calls are noted before the report is printed, so a report that does not fit loses none. -/
theorem dispatch_sends (job : RemoteJob) (machines : List FleetMachine) (session : Session σ) :
    (dispatch job machines).Sends job machines session where
  runs := rfl
  asks := by
    let targets := machines.map FleetMachine.target
    let asked := { session with calls := session.calls ++ session.dispatcher.calls job targets }
    let report := Report.mk (session.dispatcher.dispatch job targets)
    obtain ⟨output, hprint⟩ := print_keeps report.text asked
    refine ⟨output, ?_⟩
    unfold dispatch
    rw [run_bind_ok run_get]
    dsimp only
    rw [run_bind_ok run_set]
    cases hresult : (print report.text).run asked with
    | mk result after =>
        rw [hresult] at hprint
        cases result with
        | error e =>
            rw [run_bind_error hresult]
            exact hprint
        | ok =>
            rw [run_bind_ok hresult]
            cases report.check <;> exact hprint
  answered := session.dispatcher.targets_dispatch job _

theorem Sends.of_run {c : Command σ Unit}
    (h : c.run session = (dispatch job machines).run session) : c.Sends job machines session where
  runs := h
  asks := h ▸ (dispatch_sends job machines session).asks
  answered := (dispatch_sends job machines session).answered

variable [DocumentStore σ] {inv : Inventory}

theorem run_view : (view : Command σ StoreView).run session =
    (.ok (DocumentStore.view session.site.store), session) := rfl

theorem run_inventory (h : Inventory.load (DocumentStore.view session.site.store) = .ok inv) :
    (inventory : Command σ Inventory).run session = (.ok inv, session) := by
  unfold inventory
  rw [run_bind_ok run_view, run_ofInventory h]

end FleetUpgrade.Command
