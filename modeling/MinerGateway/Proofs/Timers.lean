import MinerGateway.Proofs.Resting
import MinerGateway.Proofs.Worker

/-!
The timers of a started sealer run out.

What is due sets a timer, and always for a later time (`mem_timers_move`): housekeeping after its
interval, and a source of tasks after its own. `backlog` counts the timers that go off up to a time
and those that what is due may set; no move adds to it (`backlog_move`), and in a settled gateway
nothing is due (`Settled.dues_eq_zero`).
-/

namespace MinerGateway

theorem Life.interval_ne_zero {past : List Happening} {stage : Stage}
    {place : Place} {errand : Errand} (life : Life errand past stage place) :
    ∀ chain due interval, stage = .producing chain due →
    errand = .devnet interval → interval ≠ 0 := by
  induction life with
  | advance _ _ h =>
    cases h with
    | source hz =>
      intro _ _ _ _ same
      obtain rfl := Errand.devnet.inj same
      exact hz
    | _ => simp
  | produce _ ih =>
    intro _ _ _ _ same
    exact ih _ _ _ rfl same
  | take _ ih => exact ih
  | _ => simp

namespace World

variable {w w' : World} {e : Event} {log more : List Event} {target : Nat} {timer : Timer}
  {timers others : List Timer}

theorem nextTimer_eq_none (h : nextTimer target timers = none) :
    ∀ timer ∈ timers, target < timer.due := by
  induction timers with
  | nil => simp
  | cons first rest ih =>
    unfold nextTimer at h
    split at h
    · split at h <;> cases h
    · next none =>
      split at h
      · cases h
      · next late =>
        intro timer there
        rcases List.mem_cons.mp there with rfl | there
        · omega
        · exact ih none timer there

theorem nextTimer_eq_some (h : nextTimer target timers = some (timer, others)) :
    timers.Perm (timer :: others) ∧ timer.due ≤ target ∧
    ∀ other ∈ timers, timer.due ≤ other.due := by
  induction timers generalizing timer others with
  | nil => cases h
  | cons first rest ih =>
    unfold nextTimer at h
    split at h
    · next earlier later some =>
      obtain ⟨perm, due, least⟩ := ih some
      split at h
      · next less =>
        cases h
        refine ⟨(perm.cons first).trans (.swap ..), due, ?_⟩
        intro other there
        rcases List.mem_cons.mp there with rfl | there
        · omega
        · exact least other there
      · next more =>
        cases h
        refine ⟨.refl _, by omega, ?_⟩
        intro other there
        rcases List.mem_cons.mp there with rfl | there
        · exact Nat.le_refl _
        · have := least other there
          omega
    · next none =>
      split at h
      · next due =>
        cases h
        refine ⟨.refl _, due, ?_⟩
        intro other there
        rcases List.mem_cons.mp there with rfl | there
        · exact Nat.le_refl _
        · have := nextTimer_eq_none none other there
          omega
      · cases h

/-- The gateway right after a timer has gone off. -/
def rung (w : World) (timer : Timer) (others : List Timer) : World :=
  { w with now := timer.due, timers := others }.fire timer.owner

theorem rung_clock (w : World) (timer : Timer) (others : List Timer) :
    (w.rung timer others).now = timer.due ∧ (w.rung timer others).timers = others :=
  fire_clock _ _

section

variable {settings : EngineSettings} {verifier : Verifier}

theorem settings_of_run (run : (started settings verifier).Run log w) {sealer : Sealer}
    (engine : w.engine = .sealer sealer) : sealer.settings = settings := by
  obtain ⟨sealer', engine', passes⟩ := run.passes_start
  obtain rfl := Engine.sealer.inj (engine.symm.trans engine')
  exact passes.constant.1

theorem interval_pos (run : (started settings verifier).Run log w) {i interval : Nat} {call : Call}
    {chain : Devnet.Chain} {due : Bool} (found : w.calls[i]? = some call)
    (stage : call.stage = .producing chain due) (errand : call.errand = .devnet interval) :
    0 < interval := by
  have tracked : w.Tracked log := run.tracked (tracked_started ..)
  obtain ⟨place, -, life⟩ := tracked.life (view_eq_some found)
  exact Nat.pos_of_ne_zero (life.interval_ne_zero _ _ _ stage errand)

/-- **A timer that a move sets goes off later.** -/
theorem mem_timers_move (run : (started settings verifier).Run log w)
    (ticks : 0 < settings.cleanupInterval) (step : Move w e w') (h : timer ∈ w'.timers) :
    timer ∈ w.timers ∨ w'.now < timer.due := by
  cases step with
  | @produce pushed i interval call chain found stage errand hpush =>
    rcases List.mem_append.mp h with h | h
    · exact .inl ((pushTask_clock hpush).2 ▸ h)
    · rw [List.mem_singleton.mp h]
      exact .inr (Nat.lt_add_of_pos_right (interval_pos run found stage errand))
  | quit =>
    rw [(lose_clock _ _).2] at h
    exact .inl h
  | clean working =>
    rcases List.mem_append.mp h with h | h
    · exact .inl h
    · rw [List.mem_singleton.mp h, settings_of_run run working.engine]
      exact .inr (Nat.lt_add_of_pos_right ticks)
  | advance | enter | handle | serve | release => exact .inl h

theorem mem_timers_act (step : Act w e w') (h : timer ∈ w'.timers) : timer ∈ w.timers := by
  cases step with
  | push pushed => exact (pushTask_clock pushed).2 ▸ h
  | drop =>
    rw [(lose_clock _ _).2] at h
    exact h
  | ring rung =>
    rw [(fire_clock _ _).2] at h
    exact (nextTimer_eq_some rung).1.mem_iff.mpr (List.mem_cons_of_mem _ h)
  | _ => exact h

/-- While time stands still, all timers that are set go off later. -/
theorem mem_timers_still (run : (started settings verifier).Run log w)
    (ticks : 0 < settings.cleanupInterval) (still : w.RunBy Still more w') :
    w'.now = w.now ∧ ∀ timer ∈ w'.timers, timer ∈ w.timers ∨ w.now < timer.due := by
  induction still with
  | refl => exact ⟨rfl, fun _ there => .inl there⟩
  | next before step same ih =>
    obtain ⟨now, timers⟩ := ih
    refine ⟨same.trans now, ?_⟩
    intro timer there
    cases step with
    | move step =>
      rcases mem_timers_move (run.trans before.run) ticks step there with there | later
      · exact timers timer there
      · exact .inr (now ▸ same ▸ later)
    | act step => exact timers timer (mem_timers_act step there)

theorem Ahead.still (ahead : w.Ahead) (run : (started settings verifier).Run log w)
    (ticks : 0 < settings.cleanupInterval) (still : w.RunBy Still more w') : w'.Ahead := by
  obtain ⟨now, timers⟩ := mem_timers_still run ticks still
  intro timer there
  rw [now]
  exact (timers timer there).elim (ahead timer) id

end

/-! ## What falls due -/

end World

def Call.isDue (call : Call) : Bool :=
  match call.stage with
  | .producing _ due => due
  | _ => false

def Engine.dues : Engine → Nat
  | .sealer s => if s.cleanupDue then 1 else 0
  | _ => 0

theorem countP_modify {α : Type} {items : List α} {i : Nat} {item : α} (p : α → Bool) (f : α → α)
    (found : items[i]? = some item) :
    (items.modify i f).countP p + (if p item then 1 else 0)
      = items.countP p + if p (f item) then 1 else 0 := by
  induction items generalizing i with
  | nil => cases found
  | cons first rest ih =>
    cases i with
    | zero =>
      obtain rfl : first = item := by simpa using found
      simp only [List.modify_zero_cons, List.countP_cons]
      omega
    | succ i =>
      have rest := ih (i := i) (by simpa using found)
      simp only [List.modify_succ_cons, List.countP_cons]
      omega

theorem countP_modify_le {α : Type} {items : List α} (i : Nat) (p : α → Bool) {f : α → α}
    (h : ∀ item, p (f item) = true → p item = true) :
    (items.modify i f).countP p ≤ items.countP p := by
  cases found : items[i]? with
  | none =>
    have same := List.modify_eq_self (f := f) (List.getElem?_eq_none_iff.mp found)
    exact Nat.le_of_eq (congrArg (List.countP p) same)
  | some item =>
    have counted := countP_modify p f found
    by_cases after : p (f item) = true
    · rw [if_pos after, if_pos (h item after)] at counted
      omega
    · rw [if_neg after] at counted
      omega

namespace World

variable {w w' : World} {e : Event} {log more : List Event} {target : Nat} {timer : Timer}

/-- How many timers what is due may set. -/
def dues (w : World) : Nat := w.engine.dues + w.calls.countP Call.isDue

/-- A bound on the timers that go off up to a time, counting those that will be set. -/
def backlog (w : World) (target : Nat) : Nat := w.timerBound target + w.dues * (target - w.now)

theorem timerBound_of_perm (timers : w.timers.Perm (timer :: w'.timers)) :
    w.timerBound target = target + 1 - timer.due + w'.timerBound target := by
  refine timers.foldr_eq' ?_ 0
  intro first _ second _ sum
  exact Nat.add_left_comm ..

theorem le_timerBound (there : timer ∈ w.timers) :
    target + 1 - timer.due ≤ w.timerBound target := by
  obtain ⟨before, after, parts⟩ := List.append_of_mem there
  let others : World := { w with timers := before ++ after }
  have share : w.timerBound target = target + 1 - timer.due + others.timerBound target :=
    timerBound_of_perm (parts ▸ List.perm_middle)
  omega

theorem backlog_le (now : w'.now = w.now) (timers : w'.timers = w.timers)
    (dues : w'.dues ≤ w.dues) :
    w'.backlog target ≤ w.backlog target := by
  rw [backlog, backlog, timerBound, timerBound, now, timers]
  exact Nat.add_le_add_left (Nat.mul_le_mul_right _ dues) _

/-- What was due sets a timer for later. -/
theorem backlog_setTimer_le {due : Nat} {owner : Owner} (now : w'.now = w.now)
    (timers : w'.timers = w.timers) (dues : w'.dues + 1 = w.dues) (later : w.now < due) :
    (w'.setTimer due owner).backlog target ≤ w.backlog target := by
  have set : (w'.setTimer due owner).dues = w'.dues := rfl
  have time : (w'.setTimer due owner).now = w.now := now
  have others : w'.timerBound target = w.timerBound target := by rw [timerBound, timerBound, timers]
  have last : (w'.setTimer due owner).timers.Perm (⟨due, owner⟩ :: w'.timers) :=
    List.perm_append_singleton _ _
  have share : (w'.setTimer due owner).timerBound target
      = target + 1 - due + w'.timerBound target :=
    timerBound_of_perm last
  calc (w'.setTimer due owner).backlog target
      = target + 1 - due + w.timerBound target + w'.dues * (target - w.now) := by
        rw [backlog, share, others, set, time]
    _ ≤ w.timerBound target + (w'.dues + 1) * (target - w.now) := by
        rw [Nat.add_mul]
        omega
    _ = w.backlog target := by rw [dues, backlog]

theorem dues_setStage_le (i : Nat) {stage : Stage}
    (other : ∀ chain, stage ≠ .producing chain true) : (w.setStage i stage).dues ≤ w.dues := by
  refine Nat.add_le_add_left (countP_modify_le i _ ?_) _
  intro call due
  cases stage with
  | producing chain due' =>
    obtain rfl : due' = true := due
    exact absurd rfl (other chain)
  | _ => cases due

theorem isDue_receive {reply : Reply} {call : Call} (h : (call.receive reply).isDue = true) :
    call.isDue = true := by
  obtain ⟨errand, stage, reported⟩ := call
  cases stage <;> exact h

theorem dues_deliver_le (w : World) (i : Nat) (reply : Reply) : (w.deliver i reply).dues ≤ w.dues :=
  Nat.add_le_add_left (countP_modify_le i _ fun _ => isDue_receive) _

theorem dues_lose_le (letters : List Letter) (w : World) : (w.lose letters).dues ≤ w.dues := by
  induction letters generalizing w with
  | nil => exact Nat.le_refl _
  | cons letter rest ih => exact Nat.le_trans (ih _) (dues_deliver_le w _ _)

theorem Advances.finished {errand : Errand} {stage stage' : Stage}
    (h : Advances w errand stage stage')
    (begun : stage ≠ .made) : ∃ answer, stage' = .finished answer := by
  cases h with
  | refused | learn | exited | stopped => exact ⟨_, rfl⟩
  | _ => exact absurd rfl begun

section

variable {settings : EngineSettings} {verifier : Verifier}

/-- **What is to come up to a time is not added to by moves.** -/
theorem backlog_move (run : (started settings verifier).Run log w)
    (ticks : 0 < settings.cleanupInterval) (begun : w.Begun) (step : Move w e w') :
    w'.backlog target ≤ w.backlog target := by
  cases step with
  | @advance i call stage found step =>
    have made : call.stage ≠ .made := by
      intro made
      exact begun i call.errand (made ▸ view_eq_some found)
    obtain ⟨answer, rfl⟩ := Advances.finished step made
    exact backlog_le rfl rfl (dues_setStage_le i (by simp))
  | @enter i call message intake => exact backlog_le rfl rfl (dues_setStage_le i (by simp))
  | @produce pushed i interval call chain found stage errand hpush =>
    obtain ⟨sealer, engine, -, -, rfl⟩ := pushTask_eq_ok hpush
    have due : call.isDue = true := by rw [Call.isDue, stage]
    refine backlog_setTimer_le rfl rfl ?_
      (Nat.lt_add_of_pos_right (interval_pos run found stage errand))
    have counted := countP_modify Call.isDue
      (fun call => { call with stage := .producing (chain.advance Sha256.digest) false }) found
    rw [due] at counted
    simp only [dues, engine]
    exact (Nat.add_assoc ..).trans (congrArg (_ + ·) counted)
  | @quit sealer intake working =>
    obtain ⟨now, timers⟩ := lose_clock intake.letters
      { w with engine := .sealer sealer.exit, intake := some intake.abandon }
    refine backlog_le now timers (Nat.le_trans (dues_lose_le _ _) ?_)
    have none : (Engine.sealer sealer.exit).dues = 0 := rfl
    rw [dues, dues, none]
    exact Nat.add_le_add_right (Nat.zero_le _) _
  | handle working =>
    have same : w.engine.dues = _ := congrArg Engine.dues working.engine
    exact backlog_le rfl rfl (Nat.add_le_add_right (Nat.le_of_eq same.symm) _)
  | @serve sealer intake rest letter working =>
    have same : (Engine.sealer (sealer.serve w.now letter.message).1).dues = w.engine.dues := by
      rw [working.engine, Engine.dues, Engine.dues, (sealer.serve_frame ..).2.2.1]
    exact backlog_le rfl rfl
      (Nat.le_trans (dues_deliver_le _ _ _) (Nat.add_le_add_right (Nat.le_of_eq same) _))
  | clean working _ _ _ due =>
    have same := settings_of_run run working.engine
    refine backlog_setTimer_le rfl rfl ?_ (Nat.lt_add_of_pos_right (same.symm ▸ ticks))
    rw [dues, dues, working.engine, Engine.dues, Engine.dues, due]
    show 0 + w.calls.countP Call.isDue + 1 = 1 + w.calls.countP Call.isDue
    omega
  | release => exact backlog_le rfl rfl (Nat.le_refl _)

theorem backlog_moves {n : Nat} (run : (started settings verifier).Run log w)
    (ticks : 0 < settings.cleanupInterval) (begun : w.Begun) (moves : Moves n w w') :
    w'.backlog target ≤ w.backlog target := by
  induction moves generalizing log with
  | zero => exact Nat.le_refl _
  | succ step _ ih =>
    have rest := ih (run.next (.move step)) (begun.of_move step)
    exact Nat.le_trans rest (backlog_move run ticks begun step)

end

theorem Settled.dues_eq_zero (settled : w.Settled) (sound : w.Sound) : w.dues = 0 := by
  obtain ⟨intake, hi, sound⟩ := sound
  have calls : w.calls.countP Call.isDue = 0 := by
    rw [List.countP_eq_zero]
    intro call there due
    obtain ⟨i, found⟩ := List.mem_iff_getElem?.mp there
    obtain ⟨errand, stage, reported⟩ := call
    cases stage with
    | producing chain due' =>
      obtain rfl : due' = true := due
      -- The task is either pushed, or the source finds the engine stopped.
      by_cases pushed : ∃ interval next, errand = .devnet interval ∧
          w.pushTask (chain.task Sha256.digest) = .ok next
      · obtain ⟨interval, next, rfl, pushed⟩ := pushed
        exact settled _ _ (.produce found rfl rfl pushed)
      · refine settled _ _ (.advance found (.stopped ?_))
        intro interval next same accepted
        exact pushed ⟨interval, next, same, accepted⟩
    | _ => cases due
  have engine : w.engine.dues = 0 := by
    cases engine : w.engine with
    | sealer sealer =>
      rw [Engine.dues, if_neg]
      intro due
      by_cases loop : sealer.loop = .running
      · have working : w.Working sealer intake := ⟨engine, hi, loop⟩
        cases signalled : intake.signalled with
        | true => exact settled _ _ (.quit working signalled)
        | false =>
          cases queue : sealer.tasks with
          | cons => exact settled _ _ (.handle working signalled queue)
          | nil =>
            cases next : intake.next with
            | some => exact settled _ _ (.serve working signalled queue next)
            | none => exact settled _ _ (.clean working signalled queue next due)
      · rw [(sound.idle sealer engine loop).2] at due
        cases due
    | _ => rfl
  rw [dues, calls, engine]

end World

end MinerGateway
