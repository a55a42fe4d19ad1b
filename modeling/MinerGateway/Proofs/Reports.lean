import MinerGateway.Proofs.Settling

/-!
What the reports of a session say about the answers of one call.

An answer is reported once: after any actions the answers to a call that were reported are those
that its stage stands for, if it was marked as reported, and none otherwise (`told_play`). So no
call is reported twice (`length_answersTo_le`), and after a step that was not held back everything
that has finished was reported (`answersTo_session_concat`).
-/

namespace MinerGateway

def answersTo (i : Nat) (reports : List Report) : List Answer :=
  reports.flatMap fun report =>
    report.done.filterMap fun (call, answer) => if call = i then some answer else none

theorem filterMap_zipIdx {α β : Type} (f : α → Option β) (l : List α) (i k : Nat) :
    (l.zipIdx k).filterMap (fun (x, j) => if j = k + i then f x else none)
      = (l[i]?.bind f).toList := by
  induction l generalizing i k with
  | nil => rfl
  | cons x rest ih =>
    rw [List.zipIdx_cons, List.filterMap_cons]
    cases i with
    | zero =>
      -- Later elements have later indices.
      have later : (rest.zipIdx (k + 1)).filterMap
          (fun (x, j) => if j = k + 0 then f x else none) = [] := by
        apply List.filterMap_eq_nil_iff.mpr
        rintro ⟨y, j⟩ hy
        have le : k + 1 ≤ j := List.le_snd_of_mem_zipIdx hy
        exact if_neg (by omega)
      rw [later]
      cases hx : f x <;> simp [hx]
    | succ i =>
      have shift : k + (i + 1) = k + 1 + i := by omega
      rw [shift, ih i (k + 1)]
      have other : k ≠ k + 1 + i := by omega
      simp [other]

namespace World

variable {w w' : World} {e : Event} {log : List Event}

/-- Which calls are marked as reported. -/
def flags (w : World) : List Bool := w.calls.map Call.reported

def isReported (w : World) (i : Nat) : Bool := w.flags[i]?.getD false

/-- The answers that the stage of a call stands for. -/
def answersAt (w : World) (i : Nat) : List Answer := (w.view i).elim [] (·.2.answers)

/-- The answers to a call that were reported so far. -/
def told (w : World) (i : Nat) : List Answer := if w.isReported i then w.answersAt i else []

/-- Only finished calls are marked as reported. -/
def Honest (w : World) : Prop :=
  ∀ i, w.isReported i = true → ∃ errand answer, w.view i = some (errand, .finished answer)

/-! ## The marks -/

theorem map_reported_modify {f : Call → Call} (h : ∀ call, (f call).reported = call.reported)
    (calls : List Call) (i : Nat) :
    (calls.modify i f).map Call.reported = calls.map Call.reported := by
  apply List.ext_getElem?
  intro j
  rw [List.getElem?_map, List.getElem?_map, List.getElem?_modify]
  by_cases hij : i = j
  · subst hij
    cases calls[i]? <;> simp [h]
  · simp [hij]

theorem flags_setStage (w : World) (i : Nat) (stage : Stage) :
    (w.setStage i stage).flags = w.flags :=
  map_reported_modify (f := fun call => { call with stage }) (fun _ => rfl) _ _

theorem receive_reported (reply : Reply) (call : Call) :
    (call.receive reply).reported = call.reported := by
  obtain ⟨errand, stage, reported⟩ := call
  cases stage <;> rfl

theorem flags_deliver (w : World) (i : Nat) (reply : Reply) : (w.deliver i reply).flags = w.flags :=
  map_reported_modify (receive_reported reply) _ _

theorem flags_lose (letters : List Letter) (w : World) : (w.lose letters).flags = w.flags := by
  induction letters generalizing w with
  | nil => rfl
  | cons letter rest ih =>
    have first : (w.deliver letter.sender .lost).flags = w.flags := flags_deliver w _ _
    rw [← first]
    exact ih _

theorem flags_makeCall (w : World) (errand : Errand) :
    (w.makeCall errand).2.flags = w.flags ++ [false] :=
  List.map_append ..

theorem flags_fire (w : World) (owner : Owner) : (w.fire owner).flags = w.flags := by
  unfold fire
  split
  · split <;> rfl
  · rfl
  · apply map_reported_modify
    rintro ⟨errand, stage, reported⟩
    cases stage <;> rfl

theorem flags_step (step : Step w e w') (other : e ≠ .reported) :
    w'.flags = w.flags ∨ w'.flags = w.flags ++ [false] := by
  cases step with
  | move step =>
    refine .inl ?_
    cases step with
    | advance | enter => exact flags_setStage ..
    | produce _ _ _ pushed =>
      obtain ⟨sealer, -, -, -, rfl⟩ := pushTask_eq_ok pushed
      exact flags_setStage ..
    | quit => exact flags_lose ..
    | serve => exact flags_deliver ..
    | handle | clean | release => rfl
  | act step =>
    cases step with
    | make => exact .inr (flags_makeCall w _)
    | post => exact .inr ((flags_setStage ..).trans (flags_makeCall w _))
    | abort => exact .inl (flags_setStage ..)
    | push pushed =>
      obtain ⟨sealer, -, -, -, rfl⟩ := pushTask_eq_ok pushed
      exact .inl rfl
    | resolve => exact .inl (flags_deliver ..)
    | drop => exact .inl (flags_lose ..)
    | ring => exact .inl (flags_fire ..)
    | report => exact absurd rfl other
    | _ => exact .inl rfl

theorem isReported_run (run : w.Run log w') (other : ∀ e ∈ log, e ≠ .reported) (i : Nat) :
    w'.isReported i = w.isReported i := by
  induction run with
  | refl => rfl
  | @next log mid w'' e run step ih =>
    have before : ∀ e ∈ log, e ≠ .reported := by
      intro e he
      exact other e (List.mem_append_left _ he)
    have last : e ≠ .reported := other e (List.mem_append_right _ List.mem_cons_self)
    rw [← ih before]
    unfold isReported
    rcases flags_step step last with same | more
    · rw [same]
    · -- A new call is not marked, and neither is one that does not exist.
      rw [more, List.getElem?_append]
      split
      · rfl
      · next beyond =>
        rw [List.getElem?_eq_none (Nat.le_of_not_lt beyond)]
        rcases Nat.eq_zero_or_pos (i - mid.flags.length) with first | later
        · rw [first]
          rfl
        · rw [List.getElem?_eq_none later]

theorem told_run (run : w.Run log w') (other : ∀ e ∈ log, e ≠ .reported) {past : List Event}
    (tracked : w.Tracked past) (honest : w.Honest) : w'.Honest ∧ ∀ i, w'.told i = w.told i := by
  have kept : ∀ i, w.isReported i = true → ∃ errand answer,
      w.view i = some (errand, .finished answer) ∧ w'.view i = some (errand, .finished answer) := by
    intro i hi
    obtain ⟨errand, answer, before⟩ := honest i hi
    obtain ⟨stage, after, final⟩ := tracked.view_run run before
    exact ⟨errand, answer, before, final answer rfl ▸ after⟩
  constructor
  · intro i hi
    rw [isReported_run run other] at hi
    obtain ⟨errand, answer, -, after⟩ := kept i hi
    exact ⟨errand, answer, after⟩
  · intro i
    unfold told
    rw [isReported_run run other]
    split
    · next hi =>
      obtain ⟨errand, answer, before, after⟩ := kept i hi
      rw [answersAt, answersAt, before, after]
    · rfl

/-! ## One report -/

theorem answer?_toList (call : Call) : call.answer?.toList = call.stage.answers := by
  obtain ⟨errand, stage, reported⟩ := call
  cases stage <;> rfl

/-- A report tells of a call what its stage stands for, unless it was reported before. -/
theorem filterMap_unreported (w : World) (i : Nat) :
    w.unreported.filterMap (fun (call, answer) => if call = i then some answer else none)
      = if w.isReported i then [] else w.answersAt i := by
  rw [unreported, List.filterMap_filterMap]
  have single := filterMap_zipIdx
    (fun call : Call => if call.reported then none else call.answer?) w.calls i 0
  rw [Nat.zero_add] at single
  refine Eq.trans ?_ (single.trans ?_)
  · congr 1
    funext ⟨call, j⟩
    by_cases hj : j = i <;> cases hr : call.reported <;> cases ha : call.answer? <;>
      simp [hj, hr, ha]
  · cases found : w.calls[i]? with
    | none => simp [isReported, flags, answersAt, view, found]
    | some call =>
      simp only [isReported, flags, answersAt, view, found, List.getElem?_map, Option.map_some,
        Option.getD_some, Option.bind_some, Option.elim_some]
      split
      · rfl
      · exact answer?_toList call

theorem isReported_markReported (w : World) (i : Nat) :
    w.markReported.isReported i = !(w.answersAt i).isEmpty := by
  simp only [isReported, flags, markReported, answersAt, view, List.getElem?_map]
  cases w.calls[i]? with
  | none => rfl
  | some call =>
    obtain ⟨errand, stage, reported⟩ := call
    cases stage <;> rfl

theorem answersAt_markReported (w : World) (i : Nat) :
    w.markReported.answersAt i = w.answersAt i := by
  rw [answersAt, view_markReported, answersAt]

theorem told_markReported (w : World) (i : Nat) : w.markReported.told i = w.answersAt i := by
  rw [told, isReported_markReported, answersAt_markReported]
  cases w.answersAt i <;> rfl

theorem honest_markReported (w : World) : w.markReported.Honest := by
  intro i hi
  rw [isReported_markReported, answersAt] at hi
  rw [view_markReported]
  cases found : w.view i with
  | none =>
    rw [found] at hi
    cases hi
  | some v =>
    obtain ⟨errand, stage⟩ := v
    rw [found] at hi
    cases stage with
    | finished answer => exact ⟨errand, answer, rfl⟩
    | _ => cases hi

/-! ## Sessions -/

/-- A state that a session can be in. -/
structure InSession (w : World) : Prop where
  sound : w.Sound
  tracked : ∃ log, w.Tracked log
  honest : w.Honest

theorem InSession.reaches (h : w.InSession) {leaver : Option Nat} (reaches : Reaches leaver w w') :
    w'.InSession ∧ ∀ i, w'.told i = w.told i := by
  obtain ⟨log, run, under⟩ := reaches
  obtain ⟨past, tracked⟩ := h.tracked
  have other : ∀ e ∈ log, e ≠ .reported := by
    rintro e he rfl
    exact under _ he
  obtain ⟨honest, told⟩ := told_run run other tracked h.honest
  exact ⟨⟨sound_run run h.sound, ⟨_, run.tracked_from tracked⟩, honest⟩, told⟩

theorem InSession.report (h : w.InSession) : w.markReported.InSession := by
  obtain ⟨log, tracked⟩ := h.tracked
  exact ⟨sound_act .report h.sound, ⟨_, tracked_act .report tracked⟩, honest_markReported w⟩

theorem told_step (h : w.InSession) (hold : Bool) (action : Action) :
    (w.step hold action).2.InSession ∧ ∀ i,
      w.told i ++ answersTo i [(w.step hold action).1] = (w.step hold action).2.told i := by
  obtain ⟨performed, told⟩ := h.reaches (reaches_perform w action)
  cases hold with
  | true =>
    refine ⟨performed, ?_⟩
    intro i
    rw [← told i]
    exact List.append_nil _
  | false =>
    have settle : Reaches none _ (w.perform action).2.settle := reaches_settle _
    obtain ⟨settled, told'⟩ := performed.reaches settle
    rw [step_snd]
    refine ⟨settled.report, ?_⟩
    intro i
    rw [answersTo, List.flatMap_singleton, step_done, filterMap_unreported, told_markReported,
      ← told i, ← told' i, World.told]
    -- Either it was told before and is left out, or it is told now.
    split
    · exact List.append_nil _
    · rfl

/-- **An answer is reported once.** -/
theorem told_play (h : w.InSession) (actions : List (Bool × Action)) :
    (w.after actions).InSession ∧
      ∀ i, w.told i ++ answersTo i (w.play actions) = (w.after actions).told i := by
  induction actions generalizing w with
  | nil =>
    refine ⟨h, ?_⟩
    intro i
    exact List.append_nil _
  | cons step rest ih =>
    obtain ⟨hold, action⟩ := step
    obtain ⟨next, first⟩ := told_step h hold action
    obtain ⟨last, others⟩ := ih next
    refine ⟨last, ?_⟩
    intro i
    have split : answersTo i (w.play ((hold, action) :: rest)) =
        answersTo i [(w.step hold action).1] ++ answersTo i ((w.step hold action).2.play rest) := by
      rw [answersTo, answersTo, answersTo, List.flatMap_singleton]
      exact List.flatMap_cons ..
    calc w.told i ++ answersTo i (w.play ((hold, action) :: rest))
        = w.told i ++ answersTo i [(w.step hold action).1]
            ++ answersTo i ((w.step hold action).2.play rest) := by
          rw [split, List.append_assoc]
      _ = (w.step hold action).2.told i ++ answersTo i ((w.step hold action).2.play rest) := by
          rw [first i]
      _ = (w.after ((hold, action) :: rest)).told i := others i

/-- A gateway to which no call was made so far is ready for a session. -/
theorem inSession_settle (sound : w.Sound) (tracked : w.Tracked []) (calls : w.calls = []) :
    w.settle.InSession ∧ ∀ i, w.settle.told i = [] := by
  have unmarked : ∀ i, w.isReported i = false := by
    intro i
    simp [isReported, flags, calls]
  have honest : w.Honest := by
    intro i hi
    rw [unmarked i] at hi
    cases hi
  have start : w.InSession := ⟨sound, ⟨[], tracked⟩, honest⟩
  have settle : Reaches none w w.settle := reaches_settle w
  obtain ⟨settled, told⟩ := start.reaches settle
  refine ⟨settled, ?_⟩
  intro i
  rw [told i, World.told, unmarked i]
  rfl

theorem length_answersAt_le (w : World) (i : Nat) : (w.answersAt i).length ≤ 1 := by
  unfold answersAt
  cases w.view i with
  | none => exact Nat.zero_le 1
  | some v =>
    obtain ⟨errand, stage⟩ := v
    cases stage with
    | finished => exact Nat.le_refl 1
    | _ => exact Nat.zero_le 1

theorem length_answersTo_le (sound : w.Sound) (tracked : w.Tracked []) (calls : w.calls = [])
    (actions : List (Bool × Action)) (i : Nat) : (answersTo i (w.session actions)).length ≤ 1 := by
  obtain ⟨start, fresh⟩ := inSession_settle sound tracked calls
  have all := (told_play start actions).2 i
  rw [fresh i, List.nil_append] at all
  rw [session, all, told]
  split
  · exact length_answersAt_le _ i
  · exact Nat.zero_le 1

/-- After a step that was not held back, everything that has finished was reported. -/
theorem answersTo_session_concat (sound : w.Sound) (tracked : w.Tracked []) (calls : w.calls = [])
    (actions : List (Bool × Action)) (action : Action) (i : Nat) :
    answersTo i (w.session (actions ++ [(false, action)]))
      = ((w.settle.after actions).perform action).2.settle.answersAt i := by
  obtain ⟨start, fresh⟩ := inSession_settle sound tracked calls
  have all := (told_play start (actions ++ [(false, action)])).2 i
  rw [fresh i, List.nil_append, after_concat, told_markReported] at all
  exact all

end World

end MinerGateway
