import MinerGateway.Proofs.Forecast

/-!
What one settling does to the calls, one by one.

The calls made since begin where they stand (`beginCalls_eq`), so a sealer that is held from outside
settles to the forecast of the forecast with all calls begun (`settle_eq_forecast`). Letters of
different kinds may be served in either order (`serve_comm`). That the worker serves kind by kind
comes to the same as serving everybody in the order of the calls, whatever they ask for
(`served_eq_attend`), and so the kinds do not get in each other's way, however many wait.
-/

namespace MinerGateway

/-- The stage at which a call begins, with or without a boundary in front of it. -/
def Errand.first (connected : Bool) (rate : UInt64) : Errand → Stage
  | .miner request form =>
    match connected, request.message? with
    | false, _ => .finished (form.tell (request.failure .notSupported))
    | true, none => .finished (form.tell (.accepted false))
    | true, some message => .waiting message
  | .readHashrate id => .finished (.response ⟨id, .ok (.hashrate rate)⟩)
  | .known answer => .finished answer
  | .letter => .made
  | .watchExit => .watching
  | .devnet interval =>
    if interval = 0 then .finished .panicked else .producing Devnet.Chain.start true

def Call.begun (connected : Bool) (rate : UInt64) (call : Call) : Call :=
  match call.stage with
  | .made => { call with stage := call.errand.first connected rate }
  | _ => call

/-- Serves those who wait for room in the order of the calls. Each sees the reply. -/
def Sealer.attend (now : Nat) : Sealer → List Call → Sealer × List Call
  | s, [] => (s, [])
  | s, call :: rest =>
    match call.stage with
    | .waiting message =>
      let (s', reply) := s.serve now message
      let (s'', others) := s'.attend now rest
      (s'', { call with stage := .finished (call.errand.answer reply) } :: others)
    | _ =>
      let (s', others) := s.attend now rest
      (s', call.forward :: others)

/-! ## Beginning -/

theorem Call.begun_of_ne_made {connected : Bool} {rate : UInt64}
    {call : Call} (h : call.stage ≠ .made) :
    call.begun connected rate = call := by
  unfold begun
  split
  · next made => exact absurd made h
  · rfl

theorem Call.begun_begun (connected : Bool) (rate : UInt64) (call : Call) :
    (call.begun connected rate).begun connected rate = call.begun connected rate := by
  by_cases made : (call.begun connected rate).stage = .made
  · -- Only a posted letter stays as it was made.
    obtain ⟨errand, stage, reported⟩ := call
    cases stage with
    | made =>
      cases errand with
      | letter => rfl
      | miner request form =>
        simp only [begun, Errand.first] at made
        split at made <;> cases made
      | devnet interval =>
        simp only [begun, Errand.first] at made
        split at made <;> cases made
      | _ => cases made
    | _ => rfl
  · exact begun_of_ne_made made

theorem Call.forward_errand (call : Call) : call.forward.errand = call.errand := by
  unfold forward
  split <;> rfl

theorem Call.begun_errand (connected : Bool) (rate : UInt64) (call : Call) :
    (call.begun connected rate).errand = call.errand := by
  unfold begun
  split <;> rfl

namespace World

variable {w w' : World} {s : Sealer} {intake : Intake}

theorem begin_eq_modify (w : World) (i : Nat) :
    w.begin i
      = { w with calls := w.calls.modify i (Call.begun w.intake.isSome w.engine.hashrate) } := by
  cases found : w.calls[i]? with
  | none =>
    rw [List.modify_eq_self (List.getElem?_eq_none_iff.mp found)]
    simp only [begin, found]
  | some call =>
    by_cases made : call.stage = .made ∧ call.errand ≠ .letter
    · obtain ⟨made, letter⟩ := made
      obtain ⟨stage, first, begun⟩ := begin_eq found made letter
      have same : call.begun w.intake.isSome w.engine.hashrate = { call with stage } := by
        obtain ⟨errand, _, reported⟩ := call
        obtain rfl := made
        cases first <;> simp_all [Call.begun, Errand.first]
      rw [begun, setStage, modify_congr found same.symm]
    · have same : call.begun w.intake.isSome w.engine.hashrate = id call := by
        obtain ⟨errand, stage, reported⟩ := call
        cases stage <;> first | rfl | (cases errand <;> simp_all [Call.begun, Errand.first])
      have still : w.begin i = w := by
        rcases begin_cases w i with ⟨other, stage, found', made', first, -⟩ | ⟨still, -⟩
        · obtain rfl := Option.some.inj (found.symm.trans found')
          refine absurd ⟨made', ?_⟩ made
          intro letter
          rw [letter] at first
          cases first
        · exact still
      rw [modify_congr found same, List.modify_id, still]

theorem foldl_begin_eq (indices : List Nat) (w : World) :
    indices.foldl begin w = { w with
      calls := indices.foldl
        (fun calls i => calls.modify i (Call.begun w.intake.isSome w.engine.hashrate))
        w.calls } := by
  induction indices generalizing w with
  | nil => rfl
  | cons i rest ih =>
    rw [List.foldl_cons, ih, begin_eq_modify]
    rfl

theorem getElem?_foldl_modify {α : Type} {f : α → α} (idem : ∀ a, f (f a) = f a)
    (indices : List Nat) (l : List α) (j : Nat) :
    (indices.foldl (fun l i => l.modify i f) l)[j]?
      = if j ∈ indices then l[j]?.map f else l[j]? := by
  induction indices generalizing l with
  | nil => rfl
  | cons i rest ih =>
    rw [List.foldl_cons, ih, List.getElem?_modify]
    by_cases here : i = j
    · subst here
      cases l[i]? <;> simp [idem]
    · simp [here, Ne.symm here]

/-- **The calls begin where they stand.** -/
theorem beginCalls_eq (w : World) :
    w.beginCalls
      = { w with calls := w.calls.map (Call.begun w.intake.isSome w.engine.hashrate) } := by
  have calls : w.notBegun.foldl
      (fun calls i => calls.modify i (Call.begun w.intake.isSome w.engine.hashrate)) w.calls
      = w.calls.map (Call.begun w.intake.isSome w.engine.hashrate) := by
    apply List.ext_getElem?
    intro j
    rw [getElem?_foldl_modify (Call.begun_begun _ _), List.getElem?_map]
    split
    · rfl
    next begun =>
    cases found : w.calls[j]? with
    | none => rfl
    | some call =>
      have other : call.stage ≠ .made := by
        intro made
        refine begun (List.mem_filterMap.mpr ⟨(call, j),
          List.mem_zipIdx_iff_getElem?.mpr found, ?_⟩)
        simp only [made]
      rw [Option.map_some, Call.begun_of_ne_made other]
  rw [beginCalls, foldl_begin_eq, calls]

/-! ## Settling, nobody comes -/

theorem length_move {e : Event} (step : Move w e w') : w'.calls.length = w.calls.length := by
  cases step with
  | produce _ _ _ pushed =>
    obtain ⟨s, -, -, -, rfl⟩ := pushTask_eq_ok pushed
    exact List.length_modify ..
  | @quit s intake =>
    obtain ⟨-, -, length⟩ := lose_frame intake.letters
      { w with engine := .sealer s.exit, intake := some intake.abandon }
    exact length
  | advance | enter | serve => exact List.length_modify ..
  | handle | clean | release => rfl

theorem length_run (n : Nat) (w : World) : (w.run n).calls.length = w.calls.length := by
  refine run_preserves (P := fun v => v.calls.length = w.calls.length) ?_ n rfl
  intro v v' turn same
  obtain ⟨e, step⟩ := move_move turn
  exact (length_move step).trans same

theorem length_settle (w : World) : w.settle.calls.length = w.calls.length := by
  have begun : w.quiesce.beginCalls.calls.length = w.quiesce.calls.length := by
    rw [beginCalls_eq]
    exact List.length_map ..
  calc w.settle.calls.length = w.quiesce.beginCalls.calls.length := length_run _ _
    _ = w.quiesce.calls.length := begun
    _ = w.calls.length := length_run _ _

/-! ## Settling is foreseen -/

theorem Attended.of_run {more : List Event} (h : w.Attended) (run : w.Run more w')
    (attached : w'.attached = true) (idle : w'.NoneDue) : w'.Attended := by
  obtain ⟨log, tracked⟩ := h.tracked
  obtain ⟨s, engine⟩ := h.sealer
  obtain ⟨s', engine', -⟩ := run.passes tracked engine
  exact ⟨sound_run run h.sound, ⟨_, run.tracked_from tracked⟩, attached, ⟨s', engine'⟩, idle⟩

/-- No source of synthetic work is about to begin. -/
def Sober (w : World) : Prop := ∀ i interval, w.view i ≠ some (.devnet interval, .made)

theorem NoneDue.beginCalls (h : w.NoneDue) (sober : w.Sober) : w.beginCalls.NoneDue := by
  intro i errand chain due
  obtain ⟨call, found, rfl, stage⟩ := exists_call due
  rw [beginCalls_eq, List.getElem?_map] at found
  obtain ⟨before, found', rfl⟩ := Option.map_eq_some_iff.mp found
  by_cases made : before.stage = .made
  · have view := view_eq_some found'
    obtain ⟨errand, _, reported⟩ := before
    obtain rfl := made
    cases errand with
    | devnet interval => exact sober i interval view
    | miner request form =>
      simp only [Call.begun, Errand.first] at stage
      split at stage <;> cases stage
    | _ => cases stage
  · rw [Call.begun_of_ne_made made] at stage
    exact h i before.errand chain (stage ▸ view_eq_some found')

theorem Attended.beginCalls (h : w.Attended) (sober : w.Sober) : w.beginCalls.Attended := by
  have begun : Reaches none w w.beginCalls := reaches_foldl_begin _ _
  obtain ⟨more, run, -⟩ := begun
  refine h.of_run run ?_ (h.idle.beginCalls sober)
  rw [beginCalls_eq]
  exact h.attached

theorem made_of_move {e : Event} (step : Move w e w') {i : Nat} {errand : Errand}
    (made : w'.view i = some (errand, .made)) : w.view i = some (errand, .made) := by
  have setStage : ∀ {w : World} {j} (stage), stage ≠ .made →
      (w.setStage j stage).view i = some (errand, .made) → w.view i = some (errand, .made) := by
    intro w j stage other h
    rw [view_setStage] at h
    split at h
    · obtain ⟨v, -, same⟩ := Option.map_eq_some_iff.mp h
      exact absurd (Prod.mk.inj same).2 other
    · exact h
  cases step with
  | advance _ step => exact setStage _ (Advances.ne_made step) made
  | enter => exact setStage .sent (by simp) made
  | produce _ _ _ pushed =>
    obtain ⟨sealer, -, -, -, rfl⟩ := pushTask_eq_ok pushed
    exact setStage (.producing _ _) (by simp) made
  | quit =>
    rw [view_lose] at made
    split at made
    · exact view_of_receive made (by simp)
    · exact made
  | serve =>
    rw [view_deliver] at made
    split at made
    · exact view_of_receive made (by simp)
    · exact made
  | handle | clean | release => exact made

theorem Sober.quiesce (sober : w.Sober) : w.quiesce.Sober := by
  refine run_preserves (P := Sober) ?_ w.potential sober
  intro v v' turn sober i interval made
  obtain ⟨e, step⟩ := move_move turn
  exact sober i interval (made_of_move step made)

/-- **Settling is foreseen.** -/
theorem settle_eq_forecast (h : w.Attended) (sober : w.Sober) :
    w.settle = w.forecast.beginCalls.forecast := by
  have begun : w.quiesce.beginCalls.Attended := h.quiesce.beginCalls sober.quiesce
  rw [settle, quiesce_eq_forecast begun, quiesce_eq_forecast h]

theorem Attended.settle (h : w.Attended) (sober : w.Sober) : w.settle.Attended :=
  (h.quiesce.beginCalls sober.quiesce).quiesce

end World

/-! ## The order of letters of different kinds -/

theorem Ledger.submit_record (ledger : Ledger) (r : RateReport) (now : Nat) (threshold : UInt64)
    (verifier : Verifier) (outbox : Outbox) (s : Submission) :
    (ledger.record r now).submit threshold verifier outbox s
      = ledger.submit threshold verifier outbox s := rfl

namespace Sealer

/-- A submission changes nothing but the outbox, and a report nothing that a submission looks at. -/
theorem serve_submission_report (s : Sealer) (now : Nat) (sub : Submission) (r : RateReport) :
    ((s.serve now (.submission sub)).1.serve now (.report r)).1
        = ((s.serve now (.report r)).1.serve now (.submission sub)).1 ∧
      ((s.serve now (.report r)).1.serve now (.submission sub)).2
        = (s.serve now (.submission sub)).2 := by
  cases judged : s.ledger.submit s.settings.staleThreshold s.verifier s.outbox sub <;>
    simp [serve, judged, Ledger.submit_record]

/-- **Letters of different kinds may be served in either order.** -/
theorem serve_comm (s : Sealer) (now : Nat) {m m' : Message} (other : m.kind ≠ m'.kind) :
    ((s.serve now m).1.serve now m').1 = ((s.serve now m').1.serve now m).1 ∧
      ((s.serve now m).1.serve now m').2 = (s.serve now m').2 := by
  have fetch : ∀ sub, ((s.serve now (.submission sub)).1.serve now .fetch).2
      = (s.serve now .fetch).2 := by
    intro sub
    simp only [serve]
    split <;> rfl
  cases m with
  | fetch => exact ⟨rfl, rfl⟩
  | submission sub =>
    cases m' with
    | fetch => exact ⟨rfl, fetch sub⟩
    | submission => exact absurd rfl other
    | report r => exact ⟨(s.serve_submission_report now sub r).1, rfl⟩
  | report r =>
    cases m' with
    | fetch => exact ⟨rfl, rfl⟩
    | submission sub =>
      obtain ⟨state, reply⟩ := s.serve_submission_report now sub r
      exact ⟨state.symm, reply⟩
    | report => exact absurd rfl other

variable (now : Nat)

theorem serveAll_swap (s : Sealer) (calls : List Call) {a b : Letter} (rest : List Letter)
    (kinds : a.kind ≠ b.kind) (senders : a.sender ≠ b.sender) :
    s.serveAll now calls (a :: b :: rest) = s.serveAll now calls (b :: a :: rest) := by
  obtain ⟨state, reply⟩ := s.serve_comm now kinds
  obtain ⟨-, reply'⟩ := s.serve_comm now kinds.symm
  have apart : (calls.modify a.sender (Call.conclude (s.serve now a.message).2)).modify b.sender
        (Call.conclude (s.serve now b.message).2)
      = (calls.modify b.sender (Call.conclude (s.serve now b.message).2)).modify a.sender
        (Call.conclude (s.serve now a.message).2) := by
    apply List.ext_getElem?
    intro j
    simp only [List.getElem?_modify]
    by_cases here : a.sender = j
    · have there : b.sender ≠ j := fun there => senders (here.trans there.symm)
      simp [here, there]
    · simp [here]
  simp only [serveAll]
  rw [state, reply, reply', apart]

/-- A letter may be served ahead of others of different kinds. -/
theorem serveAll_middle (s : Sealer) (calls : List Call) (front : List Letter) (letter : Letter)
    (back : List Letter) (kinds : ∀ other ∈ front, other.kind ≠ letter.kind)
    (senders : ∀ other ∈ front, other.sender ≠ letter.sender) :
    s.serveAll now calls (front ++ letter :: back)
      = s.serveAll now calls (letter :: (front ++ back)) := by
  induction front generalizing s calls with
  | nil => rfl
  | cons first front ih =>
    have ahead := ih (s.serve now first.message).1
      (calls.modify first.sender (Call.conclude (s.serve now first.message).2))
      (fun other there => kinds other (List.mem_cons_of_mem _ there))
      (fun other there => senders other (List.mem_cons_of_mem _ there))
    have swapped := s.serveAll_swap now calls (front ++ back) (kinds first List.mem_cons_self)
      (senders first List.mem_cons_self)
    rw [List.cons_append, List.cons_append, ← swapped]
    exact ahead

/-- **Only the order within each kind counts.** -/
theorem serveAll_congr (s : Sealer) (calls : List Call) {letters letters' : List Letter}
    (senders : (letters.map Letter.sender).Nodup)
    (kinds : ∀ kind, ofKind kind letters = ofKind kind letters') :
    s.serveAll now calls letters = s.serveAll now calls letters' := by
  induction letters generalizing s calls letters' with
  | nil =>
    rw [World.eq_nil_of_kinds fun kind => (kinds kind).symm]
  | cons first rest ih =>
    obtain ⟨fresh, senders⟩ := List.nodup_cons.mp senders
    -- The other list has the letter as the first of its kind.
    have own : ofKind first.kind letters' = first :: ofKind first.kind rest := by
      rw [← kinds]
      exact List.filter_cons_of_pos (by simp)
    obtain ⟨front, back, rfl, others, -, tail⟩ := List.filter_eq_cons_iff.mp own
    have others : ∀ other ∈ front, other.kind ≠ first.kind := by
      intro other there
      simpa using others other there
    have apart : ∀ other ∈ front, other.sender ≠ first.sender := by
      intro other there same
      have inside : other ∈ ofKind other.kind (first :: rest) := by
        rw [kinds]
        exact mem_ofKind.mpr ⟨List.mem_append_left _ there, rfl⟩
      rcases List.mem_cons.mp (mem_ofKind.mp inside).1 with rfl | later
      · exact others other there rfl
      · exact fresh (same ▸ List.mem_map_of_mem later)
    rw [serveAll_middle now s calls front first back others apart]
    apply ih _ _ senders
    intro kind
    have whole := kinds kind
    simp only [ofKind, List.filter_append, List.filter_cons] at whole tail ⊢
    by_cases same : first.kind = kind
    · subst same
      have none : front.filter (fun letter => decide (letter.kind = first.kind)) = [] := by
        apply List.filter_eq_nil_iff.mpr
        intro other there
        simpa using others other there
      rw [none, List.nil_append]
      exact tail.symm
    · simpa [same] using whole

theorem attend_waiting (s : Sealer) {call : Call} {message : Message}
    (waits : call.stage = .waiting message) (rest : List Call) :
    s.attend now (call :: rest)
      = (((s.serve now message).1.attend now rest).1,
        { call with stage := .finished (call.errand.answer (s.serve now message).2) }
          :: ((s.serve now message).1.attend now rest).2) := by
  simp only [attend, waits]

theorem attend_other (s : Sealer) {call : Call} (other : ∀ message, call.stage ≠ .waiting message)
    (rest : List Call) :
    s.attend now (call :: rest)
      = ((s.attend now rest).1, call.forward :: (s.attend now rest).2) := by
  rw [attend]
  split
  · next message waits => exact absurd waits (other message)
  · rfl

/-- Serving does not make housekeeping due, nor does it take up tasks. -/
theorem attend_frame (s : Sealer) (calls : List Call) :
    (s.attend now calls).1.cleanupDue = s.cleanupDue ∧ (s.attend now calls).1.tasks = s.tasks := by
  induction calls generalizing s with
  | nil => exact ⟨rfl, rfl⟩
  | cons call rest ih =>
    by_cases waits : ∃ message, call.stage = .waiting message
    · obtain ⟨message, waits⟩ := waits
      obtain ⟨-, tasks, due, -⟩ := s.serve_frame now message
      rw [attend_waiting now s waits, ← due, ← tasks]
      exact ih _
    · rw [attend_other now s (not_exists.mp waits)]
      exact ih s

theorem attend_of_unhurried (s : Sealer) {calls : List Call}
    (unhurried : ∀ call ∈ calls, ∀ message, call.stage ≠ .waiting message) :
    s.attend now calls = (s, calls.map Call.forward) := by
  induction calls with
  | nil => rfl
  | cons call rest ih =>
    obtain ⟨here, later⟩ := List.forall_mem_cons.mp unhurried
    rw [attend_other now s here, ih later]
    rfl

/-- Those who wait are served one after another as letters in the order of the calls. -/
theorem serveAll_attend (s : Sealer) (calls before : List Call) :
    s.serveAll now (before ++ calls.map Call.forward)
        ((calls.zipIdx before.length).filterMap fun entry => entry.1.letter? entry.2)
      = ((s.attend now calls).1, before ++ (s.attend now calls).2) := by
  induction calls generalizing s before with
  | nil => rfl
  | cons call rest ih =>
    -- What is done with the first call belongs to those before from then on.
    have next : ∀ (s : Sealer) (done : Call),
        s.serveAll now (before ++ done :: rest.map Call.forward)
            ((rest.zipIdx (before.length + 1)).filterMap fun entry => entry.1.letter? entry.2)
          = ((s.attend now rest).1, before ++ done :: (s.attend now rest).2) := by
      intro s done
      have after := ih s (before ++ [done])
      rw [List.length_append, List.length_singleton] at after
      simpa only [List.append_assoc, List.singleton_append] using after
    by_cases waits : ∃ message, call.stage = .waiting message
    · obtain ⟨message, waits⟩ := waits
      have served : (before ++ call.forward :: rest.map Call.forward).modify before.length
            (Call.conclude (s.serve now message).2)
          = before ++ { call with stage := .finished (call.errand.answer (s.serve now message).2) }
            :: rest.map Call.forward := by
        rw [List.modify_eq_take_cons_drop (by simp)]
        simp [Call.conclude, Call.forward, waits]
      rw [attend_waiting now s waits]
      simp only [List.map_cons, List.zipIdx_cons, List.filterMap_cons,
        Call.letter?, waits, serveAll, served]
      exact next _ _
    · have waits := not_exists.mp waits
      have none : call.letter? before.length = none := by
        unfold Call.letter?
        split
        · next message same => exact absurd same (waits message)
        · rfl
      rw [attend_other now s waits]
      simp only [List.map_cons, List.zipIdx_cons, List.filterMap_cons, none]
      exact next _ _

end Sealer

theorem nodup_waitingLetters (calls : List Call) :
    ((waitingLetters calls).map Letter.sender).Nodup := by
  have sorted : (calls.zipIdx.map Prod.snd).Nodup := by
    rw [List.zipIdx_map_snd]
    exact List.nodup_range'
  refine List.pairwise_map.mpr (List.Pairwise.filterMap _ ?_ (List.pairwise_map.mp sorted))
  rintro ⟨call, i⟩ ⟨call', i'⟩ other letter own letter' own'
  have sender : ∀ {call : Call} {i : Nat} {letter : Letter}, call.letter? i = some letter →
      letter.sender = i := by
    intro call i letter own
    unfold Call.letter? at own
    split at own
    · exact congrArg Letter.sender (Option.some.inj own).symm
    · cases own
  rw [sender own, sender own']
  exact other

theorem ofKind_ofKind (kind other : Kind) (letters : List Letter) :
    ofKind kind (ofKind other letters) = if kind = other then ofKind kind letters else [] := by
  split
  · next same =>
    subst same
    simp [ofKind]
  · next apart =>
    apply List.filter_eq_nil_iff.mpr
    intro letter there
    obtain ⟨-, rfl⟩ := mem_ofKind.mp there
    simpa using Ne.symm apart

namespace World

variable {w : World} {s : Sealer} {intake : Intake}

/-- **Serving kind by kind comes to the same as serving everybody in the order of the calls.** -/
theorem served_eq_attend (letters : intake.letters = []) :
    w.served s intake
      = { w with
          engine := .sealer ((s.caughtUp.attend w.now w.calls).1.tidied w.now)
          intake := some intake
          calls := (s.caughtUp.attend w.now w.calls).2
          timers := w.tidiedTimers s } := by
  obtain ⟨fetches, submissions, reports⟩ := empty_of_letters letters
  have kinds : ∀ kind, ofKind kind (waitingLetters w.calls)
      = ofKind kind (intake.unserved (waitingLetters w.calls)) := by
    intro kind
    cases kind <;> simp [Intake.unserved, fetches, submissions, reports, ofKind_ofKind]
  have order := s.caughtUp.serveAll_congr w.now (w.calls.map Call.forward)
    (nodup_waitingLetters w.calls) kinds
  have attend := s.caughtUp.serveAll_attend w.now w.calls []
  rw [List.nil_append, List.length_nil, List.nil_append] at attend
  unfold served
  rw [← order, waitingLetters, attend, emptied_eq_self letters]

/-- **What a running sealer settles to**, with nobody in line and nothing else to do: all tasks are
taken up, the calls made since begin, and everybody is served in the order of the calls. -/
theorem settle_running (h : w.Attended) (sober : w.Sober) (engine : w.engine = .sealer s)
    (running : s.loop = .running) (quiet : w.isSignalled = false) (empty : w.queued = [])
    (unhurried : ∀ call ∈ w.calls, ∀ message, call.stage ≠ .waiting message)
    (tidy : s.cleanupDue = false) :
    let begun := (w.calls.map Call.forward).map (Call.begun true s.caughtUp.ledger.published)
    w.settle = { w with
      engine := .sealer (s.caughtUp.attend w.now begun).1
      calls := (s.caughtUp.attend w.now begun).2 } := by
  intro begun
  obtain ⟨intake, hi, -⟩ := h.sound
  rw [isSignalled_eq hi] at quiet
  have letters : intake.letters = [] := (queued_eq hi).symm.trans empty
  have untouched : ∀ s' : Sealer, s'.cleanupDue = false → s'.tidied w.now = s' := by
    intro s' tidy
    simp [Sealer.tidied, tidy]
  -- First the tasks are taken up, and nobody is served.
  have first : w.forecast
      = { w with engine := .sealer s.caughtUp, calls := w.calls.map Call.forward } := by
    have still : s.caughtUp.tidied w.now = s.caughtUp := untouched _ tidy
    rw [forecast_open engine hi running quiet, served_eq_attend letters,
      Sealer.attend_of_unhurried _ _ unhurried]
    simp only [still, tidiedTimers, tidy, Bool.false_eq_true, if_false, hi]
  have second : w.forecast.beginCalls
      = { w with engine := .sealer s.caughtUp, calls := begun } := by
    rw [beginCalls_eq, first, hi]
    rfl
  let next : World := { w with engine := .sealer s.caughtUp, calls := begun }
  have foreseen : next.forecast = next.served s.caughtUp intake :=
    forecast_open rfl hi running quiet
  have caught : s.caughtUp.caughtUp = s.caughtUp := caughtUp_of_nil rfl
  have timers : next.tidiedTimers s.caughtUp = w.timers := if_neg (by simp [Sealer.caughtUp, tidy])
  rw [settle_eq_forecast h sober, second]
  refine foreseen.trans ?_
  rw [served_eq_attend letters, caught, timers,
    untouched _ ((s.caughtUp.attend_frame _ _).1.trans tidy), ← hi]

end World

end MinerGateway
