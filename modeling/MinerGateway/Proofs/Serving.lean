import MinerGateway.Proofs.Rearrangement

/-!
A settled sealer serves a miner at once.

Where nothing can happen by itself, a miner who comes alone finds no task to be taken up and nobody
in line: the worker serves the message as it stands, and the call has its answer when the gateway
has settled again (`settle_call`), so it is answered in the report of its own step (`step_call`).
-/

namespace MinerGateway

/-- Those in front are sent on before the others are served. -/
theorem Sealer.attend_append (now : Nat) (s : Sealer) {front : List Call}
    (unhurried : ∀ call ∈ front, ∀ message, call.stage ≠ .waiting message) (back : List Call) :
    s.attend now (front ++ back)
      = ((s.attend now back).1, front.map Call.forward ++ (s.attend now back).2) := by
  induction front with
  | nil => rfl
  | cons call rest ih =>
    obtain ⟨here, later⟩ := List.forall_mem_cons.mp unhurried
    rw [List.cons_append, attend_other now s here, ih later]
    rfl

namespace World

variable {w : World} {s : Sealer} {log : List Event}

/-- In a settled gateway no task waits to be taken up, nothing is signalled to a running sealer, and
nothing is due. -/
structure Calmed (w : World) (s : Sealer) : Prop where
  tasks : s.tasks = []
  quiet : w.isSignalled = false
  tidy : s.cleanupDue = false

theorem Calmed.of_settled (settled : w.Settled) (sound : w.Sound) (engine : w.engine = .sealer s)
    (running : s.loop = .running) : w.Calmed s := by
  obtain ⟨intake, hi, -⟩ := id sound
  have working : w.Working s intake := ⟨engine, hi, running⟩
  have quiet : intake.signalled = false := by
    by_contra signalled
    exact settled _ _ (.quit working (by simpa using signalled))
  have none : w.engine.dues + w.calls.countP Call.isDue = 0 := settled.dues_eq_zero sound
  have idle := Nat.eq_zero_of_add_eq_zero_right none
  refine ⟨?_, (isSignalled_eq hi).trans quiet, by simpa [engine, Engine.dues] using idle⟩
  cases queue : s.tasks with
  | nil => rfl
  | cons task tasks => exact absurd (.handle working quiet queue) (settled _ _)

theorem unhurried_of_settled (h : w.Attended) (settled : w.Settled)
    (connected : Bool) (rate : UInt64) :
    ∀ call ∈ (w.calls.map Call.forward).map (Call.begun connected rate),
      ∀ message, call.stage ≠ .waiting message := by
  have calm : w.Calm .fetch := .of_settled h settled
  obtain ⟨log, tracked⟩ := h.tracked
  intro after there message waits
  obtain ⟨forwarded, before, rfl⟩ := List.mem_map.mp there
  obtain ⟨call, inside, rfl⟩ := List.mem_map.mp before
  have line := calm.unhurried call inside
  have made : call.stage ≠ .made := by
    intro made
    obtain ⟨i, found⟩ := List.getElem?_of_mem inside
    exact settled.begun tracked i call.errand (made ▸ view_eq_some found)
  obtain ⟨errand, stage, reported⟩ := call
  cases stage with
  | made => exact made rfl
  | waiting message => exact line message rfl
  | _ => cases waits

/-- **A miner who comes alone is served at once.** -/
theorem settle_call (h : w.Attended) (settled : w.Settled) (engine : w.engine = .sealer s)
    (running : s.loop = .running) {action : Action} {request : Request}
    {form : Form} {message : Message}
    (miner : action.miner? = some (request, form)) (writes : request.message? = some message) :
    (w.perform action).2.settle.engine = .sealer (s.serve w.now message).1 ∧
      (w.perform action).2.settle.calls[w.calls.length]?
        = some { errand := .miner request form
                 stage := .finished (form.tell (request.outcome (s.serve w.now message).2)) } := by
  obtain ⟨tasks, quiet, tidy⟩ := Calmed.of_settled settled h.sound engine running
  have operation : ∀ other ∈ [action], other.isOperation = true := by
    simp [Action.isOperation, miner]
  have calm : (w.perform action).2.Calm .fetch := by
    have taken : (w.perform action).2 = w.taking s [action] :=
      (after_atOnce h.attached engine operation).1
    rw [taken]
    exact calm_taking h settled engine operation .fetch
  rw [perform_miner h.attached miner] at calm ⊢
  have empty : w.queued = [] := letters_of_settled settled h.sound engine
  have served := settle_running calm.attended calm.sober engine
      running quiet empty calm.unhurried tidy
  have begun : Call.begun true s.caughtUp.ledger.published
      (Call.forward { errand := .miner request form })
        = { errand := .miner request form, stage := .waiting message } := by
    simp [Call.forward, Call.begun, Errand.first, writes]
  have others := unhurried_of_settled h settled true s.caughtUp.ledger.published
  have alone : s.attend w.now [{ errand := .miner request form, stage := .waiting message }]
      = ((s.serve w.now message).1,
        [{ errand := .miner request form
           stage := .finished (form.tell (request.outcome (s.serve w.now message).2)) }]) := rfl
  simp only [List.map_append, List.map_cons, List.map_nil, begun] at served
  rw [Sealer.attend_append _ _ others, caughtUp_of_nil tasks, alone] at served
  rw [served]
  refine ⟨rfl, ?_⟩
  simp only
  rw [List.getElem?_append_right (by simp)]
  simp

/-- **A miner who comes alone is answered right after the call**, with what the worker replies, and
the engine is what serving the message makes of it. -/
theorem step_call (h : w.Attended) (settled : w.Settled) (engine : w.engine = .sealer s)
    (running : s.loop = .running) {action : Action} {request : Request}
    {form : Form} {message : Message}
    (miner : action.miner? = some (request, form)) (writes : request.message? = some message) :
    (w.step false action).1.result = .ok (.call w.calls.length) ∧
      (w.calls.length, form.tell (request.outcome (s.serve w.now message).2))
        ∈ (w.step false action).1.done ∧
      (w.step false action).2.engine = .sealer (s.serve w.now message).1 := by
  obtain ⟨state, answered⟩ := settle_call h settled engine running miner writes
  have made : (w.step false action).1.result = (w.perform action).1 := by
    unfold step
    rfl
  refine ⟨?_, ?_, ?_⟩
  · rw [made, perform_miner h.attached miner]
  · rw [step_done]
    exact List.mem_filterMap.mpr
      ⟨(_, w.calls.length), List.mem_zipIdx_iff_getElem?.mpr answered, rfl⟩
  · rw [step_snd]
    exact state

end World

end MinerGateway
