import MinerGateway.Proofs.Soundness
import MinerGateway.Proofs.Tracking

/-!
Settling ends, and what is left then.

Every move lowers the potential (`potential_lt_of_move`), in whatever order calls and worker take
their turns, so at most `potential` moves follow each other (`Moves.length_le`) and the fuel of
`quiesce` is enough: `settle` leaves a settled gateway (`settled_settle`). In a settled gateway a
miner's call has its answer unless the worker's part is played by hand (`stage_of_settled`,
`finished_of_settled`).

What the potential counts: how many stages each call may still come to, the letters in the channels,
the tasks that are queued, housekeeping that is due, the end of the loop, and the signal that an
engine gives when nobody holds it. Time does not enter, so sources of synthetic work do not keep a
gateway from settling: their next task is due only when time has passed.
-/

namespace MinerGateway

/-- What is left to do for the calls. -/
def callWork (calls : List Call) : Nat := calls.foldr (fun call sum => call.potential + sum) 0

/-- What is left to do for the worker, letters apart. -/
def Engine.work : Engine → Nat
  | .sealer s =>
    s.tasks.length + (if s.cleanupDue then 1 else 0) + (if s.loop = .running then 1 else 0)
  | _ => 0

/-- A call of its own accord only goes forward. -/
theorem Advances.potential_lt {w : World} {errand : Errand} {stage stage' : Stage}
    (h : Advances w errand stage stage') (reported : Bool) :
    (⟨errand, stage', reported⟩ : Call).potential
      < (⟨errand, stage, reported⟩ : Call).potential := by
  cases h <;> simp [Call.potential]

theorem potential_receive_le (reply : Reply) (call : Call) :
    (call.receive reply).potential ≤ call.potential := by
  obtain ⟨errand, stage, reported⟩ := call
  cases stage <;> simp [Call.receive, Call.potential]

theorem callWork_modify {calls : List Call} {i : Nat} {call : Call} (f : Call → Call)
    (found : calls[i]? = some call) :
    callWork (calls.modify i f) + call.potential = callWork calls + (f call).potential := by
  -- Stated as a sum, so that no subtraction gets in the way of the induction.
  induction calls generalizing i with
  | nil => cases found
  | cons first rest ih =>
    cases i with
    | zero =>
      obtain rfl : first = call := by simpa using found
      simp only [List.modify_zero_cons, callWork, List.foldr_cons]
      omega
    | succ i =>
      have rest := ih (i := i) (by simpa using found)
      simp only [List.modify_succ_cons, callWork, List.foldr_cons] at rest ⊢
      omega

theorem callWork_modify_le {calls : List Call} (i : Nat) {f : Call → Call}
    (h : ∀ call, (f call).potential ≤ call.potential) :
    callWork (calls.modify i f) ≤ callWork calls := by
  cases found : calls[i]? with
  | none =>
    have same := List.modify_eq_self (f := f) (List.getElem?_eq_none_iff.mp found)
    exact Nat.le_of_eq (congrArg callWork same)
  | some call =>
    have moved := callWork_modify f found
    have := h call
    omega

namespace World

variable {w w' : World} {e : Event} {log : List Event}

theorem callWork_setStage {i : Nat} {call : Call} (stage : Stage)
    (found : w.calls[i]? = some call) :
    callWork (w.setStage i stage).calls + call.potential =
      callWork w.calls + ({ call with stage } : Call).potential :=
  callWork_modify _ found

theorem callWork_deliver_le (w : World) (i : Nat) (reply : Reply) :
    callWork (w.deliver i reply).calls ≤ callWork w.calls :=
  callWork_modify_le i (potential_receive_le reply)

theorem callWork_lose_le (letters : List Letter) (w : World) :
    callWork (w.lose letters).calls ≤ callWork w.calls := by
  induction letters generalizing w with
  | nil => exact Nat.le_refl _
  | cons letter rest ih =>
    calc callWork ((w.deliver letter.sender .lost).lose rest).calls
        ≤ callWork (w.deliver letter.sender .lost).calls := ih _
      _ ≤ callWork w.calls := callWork_deliver_le w _ _

/-- The potential by the parts of the state that it depends on. -/
def potentialOf (calls : List Call) (queued : List Letter) (engine : Engine) (signalled : Bool) :
    Nat :=
  callWork calls + queued.length + engine.work + if signalled then 0 else 1

theorem potential_eq (w : World) :
    w.potential = potentialOf w.calls w.queued w.engine w.isSignalled := by
  have letters : (w.intake.map fun intake => intake.letters.length).getD 0 = w.queued.length := by
    unfold queued
    cases w.intake <;> rfl
  simp only [potential, letters, potentialOf]
  cases w.engine <;> rfl

theorem isSignalled_eq {intake : Intake} (h : w.intake = some intake) :
    w.isSignalled = intake.signalled := by
  rw [isSignalled, h, Option.map_some, Option.getD_some]

/-! ## Every move lowers the potential -/

/-- **Every move lowers the potential**, unless an engine without channels is let go. -/
theorem potential_lt_of_move (step : Move w e w')
    (connected : w.isOrphaned = true → w.intake ≠ none) :
    w'.potential < w.potential := by
  rw [potential_eq, potential_eq]
  -- Each case names the parts of the next state, and then it is arithmetic.
  cases step with
  | @advance i call stage found step =>
    show potentialOf (w.setStage i stage).calls w.queued w.engine w.isSignalled < _
    have work := callWork_setStage stage found
    have less : _ < call.potential := step.potential_lt call.reported
    simp only [potentialOf]
    omega
  | @enter i call message intake found stage hi _ _ _ =>
    show potentialOf (w.setStage i .sent).calls (intake.put ⟨i, message⟩).letters w.engine
      (intake.put ⟨i, message⟩).signalled < _
    have work := callWork_setStage (w := w) .sent found
    have before : call.potential = 4 := by rw [Call.potential, stage]
    have after : ({ call with stage := .sent } : Call).potential = 2 := rfl
    have letters := (Intake.letters_put_perm intake ⟨i, message⟩).length_eq
    rw [List.length_cons] at letters
    rw [queued_eq hi, isSignalled_eq hi, Intake.signalled_put]
    simp only [potentialOf]
    omega
  | @produce pushed i interval call chain found stage errand hpush =>
    obtain ⟨sealer, engine, loop, -, rfl⟩ := pushTask_eq_ok hpush
    show potentialOf (w.setStage i (.producing (chain.advance Sha256.digest) false)).calls w.queued
      (.sealer { sealer with tasks := sealer.tasks ++ [chain.task Sha256.digest] })
      w.isSignalled < _
    have work := callWork_setStage (w := w) (.producing (chain.advance Sha256.digest) false) found
    have before : call.potential = 2 := by
      rw [Call.potential, stage]
      rfl
    have after : ({ call with stage := .producing (chain.advance Sha256.digest) false } :
      Call).potential = 0 := rfl
    rw [engine]
    simp only [potentialOf, Engine.work, List.length_append, List.length_singleton]
    omega
  | @quit sealer intake working signalled =>
    generalize hw :
      ({ w with engine := .sealer sealer.exit, intake := some intake.abandon } : World)
      = next
    have calls : callWork (next.lose intake.letters).calls ≤ callWork w.calls := by
      rw [← hw]
      exact callWork_lose_le _ _
    obtain ⟨hengine, hintake, -⟩ := lose_frame intake.letters next
    have none : (Engine.sealer sealer.exit).work = 0 := rfl
    have some : 0 < (Engine.sealer sealer).work := by
      simp only [Engine.work, working.loop, if_true]
      omega
    have still : intake.abandon.signalled = intake.signalled := rfl
    subst hw
    rw [hengine, queued_eq hintake, isSignalled_eq hintake, queued_eq working.intake,
      isSignalled_eq working.intake, working.engine, still]
    -- The loop itself counts, so ending it lowers the potential even without letters or tasks.
    simp only [potentialOf, Intake.letters_abandon, List.length_nil, none]
    omega
  | @handle sealer intake task tasks working quiet queue =>
    show potentialOf w.calls w.queued
      (.sealer { sealer with ledger := sealer.ledger.push task, tasks }) w.isSignalled < _
    rw [working.engine]
    simp only [potentialOf, Engine.work, queue, List.length_cons]
    omega
  | @serve sealer intake rest letter working quiet queue next =>
    obtain ⟨kind, taken⟩ := Intake.next_eq_some next
    have letters := (Intake.letters_take_perm taken).length_eq
    rw [List.length_cons] at letters
    obtain ⟨loop, tasks, due, -, -⟩ := sealer.serve_frame w.now letter.message
    show potentialOf (w.deliver letter.sender (sealer.serve w.now letter.message).2).calls
      rest.letters (.sealer (sealer.serve w.now letter.message).1) rest.signalled < _
    have calls := callWork_deliver_le w letter.sender (sealer.serve w.now letter.message).2
    rw [working.engine, queued_eq working.intake, isSignalled_eq working.intake,
      (Intake.take_frame taken).2.1]
    simp only [potentialOf, Engine.work, loop, tasks, due]
    omega
  | @clean sealer intake working quiet queue next due =>
    show potentialOf w.calls w.queued (.sealer { sealer with
      ledger := sealer.ledger.cleanup sealer.settings w.now, cleanupDue := false })
      w.isSignalled < _
    rw [working.engine]
    simp only [potentialOf, Engine.work, due, if_true, Bool.false_eq_true, if_false]
    omega
  | release orphaned quiet =>
    obtain ⟨intake, hi⟩ := Option.ne_none_iff_exists'.mp (connected orphaned)
    show potentialOf w.calls w.signal.queued w.engine w.signal.isSignalled < _
    have given : w.signal.isSignalled = true := isSignalled_eq (intake_signal hi)
    rw [queued_signal, given, quiet]
    simp only [potentialOf, if_true, Bool.false_eq_true, if_false]
    omega

theorem potential_lt (step : Move w e w') (h : w.Sound) : w'.potential < w.potential := by
  obtain ⟨intake, hi, -⟩ := h
  exact potential_lt_of_move step fun _ => by simp [hi]

/-! ## Settling ends -/

/-- So many moves in a row, in any order of turns, lead from one state to the other. -/
inductive Moves : Nat → World → World → Prop where
  | zero {w : World} : Moves 0 w w
  | succ {n : Nat} {w w' w'' : World} {e : Event} (step : Move w e w') (rest : Moves n w' w'') :
    Moves (n + 1) w w''

theorem Moves.length_le {n : Nat} (h : Moves n w w') (sound : w.Sound) :
    n + w'.potential ≤ w.potential := by
  induction h with
  | zero => omega
  | succ step _ ih =>
    have less := potential_lt step sound
    have rest := ih (sound_move step sound)
    omega

theorem sound_run {log : List Event} {start : World} (h : start.Run log w) (sound : start.Sound) :
    w.Sound :=
  h.preserves sound_step sound

theorem moves_run (n : Nat) (w : World) : ∃ m, Moves m w (w.run n) := by
  induction n generalizing w with
  | zero => exact ⟨0, .zero⟩
  | succ n ih =>
    unfold run
    split
    · next next h =>
      obtain ⟨e, step⟩ := move_move h
      obtain ⟨m, rest⟩ := ih next
      exact ⟨m + 1, .succ step rest⟩
    · exact ⟨0, .zero⟩

theorem Moves.trans {n m : Nat} {w'' : World} (h : Moves n w w') (h' : Moves m w' w'') :
    ∃ k, Moves k w w'' := by
  induction h with
  | zero => exact ⟨m, h'⟩
  | succ step _ ih =>
    obtain ⟨k, rest⟩ := ih h'
    exact ⟨k + 1, .succ step rest⟩

theorem moves_foldl_begin (indices : List Nat) (w : World) :
    ∃ n, Moves n w (indices.foldl begin w) := by
  induction indices generalizing w with
  | nil => exact ⟨0, .zero⟩
  | cons i rest ih =>
    obtain ⟨n, later⟩ := ih (w.begin i)
    rcases begin_move_or_eq w i with ⟨e, step⟩ | same
    · exact ⟨n + 1, .succ step later⟩
    · rw [same] at later
      refine ⟨n, ?_⟩
      rw [List.foldl_cons, same]
      exact later

theorem moves_settle (w : World) : ∃ n, Moves n w w.settle := by
  obtain ⟨_, before⟩ := moves_run w.potential w
  obtain ⟨_, begun⟩ := moves_foldl_begin w.quiesce.notBegun w.quiesce
  obtain ⟨_, after⟩ := moves_run w.quiesce.beginCalls.potential w.quiesce.beginCalls
  obtain ⟨_, first⟩ := before.trans begun
  exact first.trans after

theorem run_preserves {P : World → Prop} (keeps : ∀ {v v'}, v.move = some v' → P v → P v') (n : Nat)
    (h : P w) : P (w.run n) := by
  induction n generalizing w with
  | zero => exact h
  | succ n ih =>
    unfold run
    split
    · next next turn => exact ih (keeps turn h)
    · exact h

/-- Enough fuel leaves nothing to happen, wherever every move lowers the potential. -/
theorem move_run_of_falls {P : World → Prop} (keeps : ∀ {v v'}, v.move = some v' → P v → P v')
    (falls : ∀ {v v'}, v.move = some v' → P v → v'.potential < v.potential) (n : Nat) (h : P w)
    (enough : w.potential ≤ n) : (w.run n).move = none := by
  induction n generalizing w with
  | zero =>
    cases turn : w.move with
    | none => exact turn
    | some next =>
      have less := falls turn h
      omega
  | succ n ih =>
    unfold run
    split
    · next next turn =>
      have less := falls turn h
      exact ih (keeps turn h) (by omega)
    · next turn => exact turn

theorem move_run_eq_none (n : Nat) (sound : w.Sound) (enough : w.potential ≤ n) :
    (w.run n).move = none := by
  refine move_run_of_falls (P := Sound) ?_ ?_ n sound enough
  · intro v v' turn sound
    obtain ⟨e, step⟩ := move_move turn
    exact sound_move step sound
  · intro v v' turn sound
    obtain ⟨e, step⟩ := move_move turn
    exact potential_lt step sound

def Begun (w : World) : Prop := ∀ i errand, w.view i ≠ some (errand, .made)

theorem Begun.setStage (h : w.Begun) (i : Nat) {stage : Stage} (begun : stage ≠ .made) :
    (w.setStage i stage).Begun := by
  intro j errand hj
  rw [view_setStage] at hj
  split at hj
  · obtain ⟨v, -, hv⟩ := Option.map_eq_some_iff.mp hj
    exact begun (Prod.mk.inj hv).2
  · exact h j errand hj

theorem receive_ne_made {reply : Reply} {stage : Stage} (h : stage ≠ .made) :
    stage.receive reply ≠ .made := by
  cases stage with
  | made => exact absurd rfl h
  | _ => simp [Stage.receive]

theorem receive_view_ne {v : Option (Errand × Stage)} {reply : Reply} {errand : Errand}
    (h : ∀ errand, v ≠ some (errand, .made)) :
    v.map (fun v => (v.1, v.2.receive reply)) ≠ some (errand, .made) := by
  intro hv
  obtain ⟨⟨errand', stage⟩, before, after⟩ := Option.map_eq_some_iff.mp hv
  have begun : stage ≠ .made := by
    intro hs
    exact h errand' (hs ▸ before)
  exact receive_ne_made begun (Prod.mk.inj after).2

theorem Begun.deliver (h : w.Begun) (i : Nat) (reply : Reply) : (w.deliver i reply).Begun := by
  intro j errand
  rw [view_deliver]
  split
  · exact receive_view_ne (h j)
  · exact h j errand

theorem Begun.lose (h : w.Begun) (letters : List Letter) : (w.lose letters).Begun := by
  intro j errand
  rw [view_lose]
  split
  · exact receive_view_ne (h j)
  · exact h j errand

theorem Advances.ne_made {errand : Errand} {stage stage' : Stage}
    (h : Advances w errand stage stage') : stage' ≠ .made := by
  cases h <;> simp

theorem Begun.of_move (h : w.Begun) (step : Move w e w') : w'.Begun := by
  cases step with
  | advance _ step => exact h.setStage _ (Advances.ne_made step)
  | enter => exact Begun.setStage h _ (by simp)
  | produce _ _ _ pushed =>
    obtain ⟨sealer, -, -, -, rfl⟩ := pushTask_eq_ok pushed
    exact Begun.setStage h _ (by simp)
  | @quit sealer intake =>
    refine Begun.lose (w := { w with engine := .sealer sealer.exit, intake := some intake.abandon })
      ?_ _
    exact h
  | @serve sealer intake rest letter =>
    refine Begun.deliver (w := { w with
      engine := .sealer (sealer.serve w.now letter.message).1, intake := some rest }) ?_ _ _
    exact h
  | handle | clean | release => exact h

theorem Begun.of_moves {n : Nat} (h : w.Begun) (moves : Moves n w w') : w'.Begun := by
  induction moves with
  | zero => exact h
  | succ step _ ih => exact ih (h.of_move step)

/-- No posted letter waits to begin. -/
def Letterless (w : World) : Prop := ∀ i, w.view i ≠ some (.letter, .made)

theorem Tracked.letterless (h : w.Tracked log) : w.Letterless := by
  intro i hv
  obtain ⟨place, -, life⟩ := h.life hv
  exact life.errand_ne_letter rfl

/-- What has not begun after a call was told to begin had not begun before, and it is another call
unless it is a posted letter. -/
theorem view_begin_eq_made {i j : Nat} {errand : Errand} (letter : errand ≠ .letter)
    (hj : (w.begin i).view j = some (errand, .made)) :
    w.view j = some (errand, .made) ∧ i ≠ j := by
  rcases begin_cases w i with ⟨call, stage, found, made, step, same⟩ | ⟨same, letters⟩
  · rw [same, view_setStage] at hj
    split at hj
    · obtain ⟨v, -, hv⟩ := Option.map_eq_some_iff.mp hj
      exact absurd (Prod.mk.inj hv).2 (Advances.ne_made step)
    · next other => exact ⟨hj, other⟩
  · rw [same] at hj
    refine ⟨hj, ?_⟩
    rintro rfl
    obtain ⟨call, found, rfl, made⟩ := exists_call hj
    exact letter (letters call found made)

theorem Letterless.begin (h : w.Letterless) (i : Nat) : (w.begin i).Letterless := by
  intro j hj
  rcases begin_cases w i with ⟨call, stage, found, made, step, same⟩ | ⟨same, -⟩
  · rw [same, view_setStage] at hj
    split at hj
    · obtain ⟨v, -, hv⟩ := Option.map_eq_some_iff.mp hj
      exact Advances.ne_made step (Prod.mk.inj hv).2
    · exact h j hj
  · rw [same] at hj
    exact h j hj

theorem view_foldl_begin_eq_made {indices : List Nat} {j : Nat} {errand : Errand} (h : w.Letterless)
    (hj : (indices.foldl begin w).view j = some (errand, .made)) :
    w.view j = some (errand, .made) ∧ j ∉ indices := by
  induction indices generalizing w with
  | nil => exact ⟨hj, List.not_mem_nil⟩
  | cons i rest ih =>
    obtain ⟨later, fresh⟩ := ih (h.begin i) hj
    have letter : errand ≠ .letter := by
      rintro rfl
      exact h.begin i j later
    obtain ⟨before, other⟩ := view_begin_eq_made letter later
    exact ⟨before, List.not_mem_cons_of_ne_of_not_mem other.symm fresh⟩

theorem begun_beginCalls (h : w.Letterless) : w.beginCalls.Begun := by
  intro j errand hj
  obtain ⟨before, fresh⟩ := view_foldl_begin_eq_made h hj
  obtain ⟨call, found, hv⟩ := Option.map_eq_some_iff.mp before
  have made : call.stage = .made := (Prod.mk.inj hv).2
  -- It was among those that were told to begin.
  apply fresh
  refine List.mem_filterMap.mpr ⟨(call, j), List.mem_zipIdx_iff_getElem?.mpr found, ?_⟩
  simp only [made]

/-- **Settling leaves a settled gateway.** -/
theorem settled_settle (sound : w.Sound) (tracked : w.Tracked log) : w.settle.Settled := by
  have quiet : Reaches none w w.quiesce := reaches_run _ w
  have begun : Reaches none w.quiesce w.quiesce.beginCalls := reaches_foldl_begin _ _
  obtain ⟨before, run, -⟩ := quiet
  obtain ⟨more, run', -⟩ := begun
  have letterless : w.quiesce.Letterless := by
    have next : w.quiesce.Tracked (log ++ before) := run.tracked_from tracked
    exact next.letterless
  have sound' : w.quiesce.beginCalls.Sound := sound_run (run.trans run') sound
  obtain ⟨n, moves⟩ := moves_run w.quiesce.beginCalls.potential w.quiesce.beginCalls
  have begun : w.settle.Begun := (begun_beginCalls letterless).of_moves moves
  apply settled_of_move_eq_none (move_run_eq_none _ sound' (Nat.le_refl _))
  intro i call found made
  have there : w.settle.view i = some (call.errand, call.stage) := view_eq_some found
  rw [made] at there
  exact begun i call.errand there

/-! ## What is left -/

/-- A miner's call in a settled gateway has its answer, or waits for room, or for the reply to a
letter that is still on its way. -/
theorem stage_of_settled {i : Nat} {request : Request} {form : Form} {stage : Stage}
    (settled : w.Settled) (tracked : w.Tracked log)
    (hv : w.view i = some (.miner request form, stage)) :
    (∃ answer, stage = .finished answer) ∨
      (∃ message intake, stage = .waiting message ∧ w.intake = some intake ∧
        intake.signalled = false ∧ intake.attended = true ∧
        intake.hasRoom message.kind 0 = false) ∨
      (stage = .sent ∧ ∃ message, ⟨i, message⟩ ∈ w.queued ++ w.held) := by
  obtain ⟨place, lies, life⟩ := tracked.life hv
  obtain ⟨call, found, miner, reached⟩ := exists_call hv
  -- A call that could still do something would contradict `settled`.
  cases stage with
  | made =>
    obtain ⟨e, step⟩ := begin_move found reached (by simp [miner])
    exact absurd step (settled _ _)
  | waiting message =>
    obtain ⟨intake, hi⟩ := Option.ne_none_iff_exists'.mp tracked.connected
    have refused : (intake.signalled || !intake.attended) = false := by
      apply Bool.eq_false_iff.mpr
      intro closed
      have step : Advances w call.errand call.stage (.finished (call.errand.answer .lost)) := by
        rw [reached]
        apply Advances.refused
        intro intake' hi'
        rw [← Option.some.inj (hi.symm.trans hi')]
        exact closed
      exact settled _ _ (.advance found step)
    have quiet : intake.signalled = false := (Bool.or_eq_false_iff.mp refused).1
    have attended : intake.attended = true := by simpa using (Bool.or_eq_false_iff.mp refused).2
    refine .inr (.inl ⟨message, intake, rfl, hi, quiet, attended, ?_⟩)
    apply Bool.eq_false_iff.mpr
    intro room
    exact settled _ _ (.enter found reached hi quiet attended room)
  | sent =>
    obtain ⟨message, letter⟩ := life.message?_of_sent
    refine .inr (.inr ⟨rfl, message, ?_⟩)
    cases place with
    | nowhere => cases letter
    | queued =>
      obtain rfl := Option.some.inj letter
      exact List.mem_append_left _ lies
    | held =>
      obtain rfl := Option.some.inj letter
      exact List.mem_append_right _ lies
  | replied reply =>
    have step : Advances w call.errand call.stage (.finished (call.errand.answer reply)) := by
      rw [reached]
      exact .learn
    exact absurd (.advance found step) (settled _ _)
  | watching =>
    have alone := life.errand_of_alone.1 rfl
    cases alone
  | producing chain due =>
    obtain ⟨interval, alone⟩ := life.errand_of_alone.2 _ _ rfl
    cases alone
  | finished answer => exact .inl ⟨answer, rfl⟩

/-- Nothing lies in front of a sealer's worker in a settled gateway: it has served everything, or it
is gone. -/
theorem letters_of_settled {sealer : Sealer} (settled : w.Settled) (sound : w.Sound)
    (engine : w.engine = .sealer sealer) : w.queued = [] := by
  obtain ⟨intake, hi, sound⟩ := sound
  rw [queued_eq hi]
  by_cases loop : sealer.loop = .running
  · have working : w.Working sealer intake := ⟨engine, hi, loop⟩
    have quiet : intake.signalled = false := by
      apply Bool.eq_false_iff.mpr
      intro signalled
      exact settled _ _ (.quit working signalled)
    have tasks : sealer.tasks = [] := by
      cases queue : sealer.tasks with
      | nil => rfl
      | cons => exact absurd (.handle working quiet queue) (settled _ _)
    have next : intake.next = none := by
      cases next : intake.next with
      | none => rfl
      | some => exact absurd (.serve working quiet tasks next) (settled _ _)
    exact Intake.letters_eq_nil_of_next next
  · apply sound.unattended
    apply Bool.eq_false_iff.mpr
    intro attended
    exact loop ((sound.attended_iff sealer engine).mp attended)

/-- **In front of a sealer no miner's call is left waiting**, whatever has become of its worker. -/
theorem finished_of_settled {sealer : Sealer} {i : Nat} {request : Request} {form : Form}
    {stage : Stage} (settled : w.Settled) (sound : w.Sound) (tracked : w.Tracked log)
    (engine : w.engine = .sealer sealer) (hv : w.view i = some (.miner request form, stage)) :
    ∃ answer, stage = .finished answer := by
  have letters := letters_of_settled settled sound engine
  rcases stage_of_settled settled tracked hv with finished |
    ⟨message, intake, -, hi, -, -, full⟩ | ⟨-, message, onTheWay⟩
  · exact finished
  · -- Without letters there would be room.
    obtain ⟨intake', hi', sound⟩ := sound
    obtain rfl := Option.some.inj (hi.symm.trans hi')
    rw [queued_eq hi, Intake.letters, List.append_eq_nil_iff, List.append_eq_nil_iff] at letters
    have empty : intake.queue message.kind = [] := by
      cases message.kind with
      | fetch => exact letters.1.1
      | submission => exact letters.1.2
      | report => exact letters.2
    have room := sound.capacity_pos
    simp only [Intake.hasRoom, empty, List.length_nil, decide_eq_false_iff_not] at full
    omega
  · rw [letters, held_of_sealer engine] at onTheWay
    cases onTheWay

end World

end MinerGateway
