import MinerGateway.Proofs.Transition

/-!
Moves are the turns that the calls, the worker and an engine that nobody holds take on their own.

Each function that takes a turn makes a move (`begin_move`, `callMove_move`, `workerMove_move`,
`releaseMove_move`), and every move is such a turn (`exists_move_iff`).
-/

namespace MinerGateway.World

variable {w w' : World} {i : Nat} {call : Call}

theorem begin_eq (found : w.calls[i]? = some call) (made : call.stage = .made)
    (letter : call.errand ≠ .letter) :
    ∃ stage, Advances w call.errand .made stage ∧ w.begin i = w.setStage i stage := by
  obtain ⟨errand, stage, reported⟩ := call
  obtain rfl : stage = .made := made
  cases errand with
  | miner request form =>
    simp only [begin, found]
    split
    · next hi => exact ⟨_, .unsupported hi, rfl⟩
    · next hi hm => exact ⟨_, .malformed hi hm, rfl⟩
    · next hi hm => exact ⟨_, .wait hi hm, rfl⟩
  | readHashrate id =>
    simp only [begin, found]
    exact ⟨_, .read, rfl⟩
  | known answer =>
    simp only [begin, found]
    exact ⟨_, .known, rfl⟩
  | letter => exact absurd rfl letter
  | watchExit =>
    simp only [begin, found]
    exact ⟨_, .watch, rfl⟩
  | devnet interval =>
    simp only [begin, found]
    split
    · next hz => exact ⟨_, hz ▸ .broken, rfl⟩
    · next hz => exact ⟨_, .source hz, rfl⟩

theorem begin_move (found : w.calls[i]? = some call) (made : call.stage = .made)
    (letter : call.errand ≠ .letter) : ∃ e, Move w e (w.begin i) := by
  obtain ⟨stage, h, same⟩ := begin_eq found made letter
  rw [same]
  exact ⟨_, .advance found (made ▸ h)⟩

theorem begin_cases (w : World) (i : Nat) :
    (∃ call stage, w.calls[i]? = some call ∧ call.stage = .made ∧
        Advances w call.errand .made stage ∧ w.begin i = w.setStage i stage) ∨
      (w.begin i = w ∧
        ∀ call, w.calls[i]? = some call → call.stage = .made → call.errand = .letter) := by
  by_cases h : ∃ call, w.calls[i]? = some call ∧ call.stage = .made ∧ call.errand ≠ .letter
  · obtain ⟨call, found, made, letter⟩ := h
    obtain ⟨stage, step, same⟩ := begin_eq found made letter
    exact .inl ⟨call, stage, found, made, step, same⟩
  · refine .inr ⟨?_, ?_⟩
    · unfold begin
      split
      · next errand reported found =>
        cases errand with
        | letter => rfl
        | _ => exact absurd ⟨_, found, rfl, by simp⟩ h
      · rfl
    · intro call found made
      exact Classical.byContradiction fun letter => h ⟨call, found, made, letter⟩

theorem begin_move_or_eq (w : World) (i : Nat) : (∃ e, Move w e (w.begin i)) ∨ w.begin i = w := by
  rcases begin_cases w i with ⟨call, stage, found, made, step, same⟩ | ⟨same, -⟩
  · rw [same]
    exact .inl ⟨_, .advance found (made ▸ step)⟩
  · exact .inr same

theorem callMove_move (found : w.calls[i]? = some call) (h : w.callMove i call = some w') :
    ∃ e, Move w e w' := by
  obtain ⟨errand, stage, reported⟩ := call
  cases stage with
  | waiting message =>
    simp only [callMove] at h
    cases hi : w.intake with
    | none =>
      rw [hi] at h
      obtain rfl := Option.some.inj h
      exact ⟨_, .advance found (.refused (by simp [hi]))⟩
    | some intake =>
      simp only [hi] at h
      split at h
      · next closed =>
        obtain rfl := Option.some.inj h
        refine ⟨_, .advance found (.refused ?_)⟩
        intro intake' hi'
        rw [hi] at hi'
        exact Option.some.inj hi' ▸ closed
      · next opened =>
        split at h
        · next room =>
          obtain rfl := Option.some.inj h
          simp only [Bool.or_eq_true, not_or, Bool.not_eq_true, Bool.not_eq_false'] at opened
          exact ⟨_, .enter found rfl hi opened.1 opened.2 room⟩
        · cases h
  | replied reply =>
    obtain rfl := Option.some.inj h
    exact ⟨_, .advance found .learn⟩
  | watching =>
    simp only [callMove] at h
    split at h
    · next signalled =>
      obtain rfl := Option.some.inj h
      exact ⟨_, .advance found (.exited signalled)⟩
    · cases h
  | producing chain due =>
    cases due with
    | false => cases h
    | true =>
      simp only [callMove] at h
      split at h
      · next interval pushed hpush =>
        obtain rfl := Option.some.inj h
        exact ⟨_, .produce found rfl rfl hpush⟩
      · next other =>
        obtain rfl := Option.some.inj h
        exact ⟨_, .advance found (.stopped other)⟩
  | made => cases h
  | sent => cases h
  | finished answer => cases h

theorem workerMove_move (h : w.workerMove = some w') : ∃ e, Move w e w' := by
  unfold workerMove at h
  split at h
  · next sealer intake engine hi =>
    split at h
    · cases h
    next loop =>
    have working : w.Working sealer intake := ⟨engine, hi, Decidable.not_not.mp loop⟩
    split at h
    · next signalled =>
      obtain rfl := Option.some.inj h
      exact ⟨_, .quit working signalled⟩
    next quiet =>
    have quiet : intake.signalled = false := Bool.not_eq_true _ ▸ quiet
    split at h
    · next task tasks queue =>
      obtain rfl := Option.some.inj h
      exact ⟨_, .handle working quiet queue⟩
    next queue =>
    split at h
    · next letter rest next =>
      obtain rfl := Option.some.inj h
      exact ⟨_, .serve working quiet queue next⟩
    next next =>
    split at h
    · next due =>
      obtain rfl := Option.some.inj h
      exact ⟨_, .clean working quiet queue next due⟩
    · cases h
  · cases h

theorem releaseMove_move (h : w.releaseMove = some w') : ∃ e, Move w e w' := by
  unfold releaseMove at h
  split at h
  · next free =>
    obtain rfl := Option.some.inj h
    rw [Bool.and_eq_true, Bool.not_eq_true'] at free
    exact ⟨_, .release free.1 free.2⟩
  · cases h

theorem turn_of_advances {stage : Stage} (found : w.calls[i]? = some call)
    (h : Advances w call.errand call.stage stage) :
    (call.stage = .made ∧ call.errand ≠ .letter ∧ w.begin i = w.setStage i stage) ∨
      w.callMove i call = some (w.setStage i stage) := by
  obtain ⟨errand, before, reported⟩ := call
  cases h with
  | unsupported hi =>
    refine .inl ⟨rfl, by simp, ?_⟩
    simp only [begin, found, hi]
    rfl
  | malformed hi hm =>
    refine .inl ⟨rfl, by simp, ?_⟩
    simp only [begin, found, hi, hm]
    rfl
  | wait hi hm =>
    refine .inl ⟨rfl, by simp, ?_⟩
    simp only [begin, found, hi, hm]
  | read =>
    refine .inl ⟨rfl, by simp, ?_⟩
    simp only [begin, found]
    rfl
  | known =>
    refine .inl ⟨rfl, by simp, ?_⟩
    simp only [begin, found]
    rfl
  | watch =>
    refine .inl ⟨rfl, by simp, ?_⟩
    simp only [begin, found]
  | broken =>
    refine .inl ⟨rfl, by simp, ?_⟩
    simp only [begin, found, if_true]
    rfl
  | source hz =>
    refine .inl ⟨rfl, by simp, ?_⟩
    simp only [begin, found, if_neg hz]
  | refused closed =>
    refine .inr ?_
    simp only [callMove]
    cases hi : w.intake with
    | none => rfl
    | some intake =>
      simp only [closed intake hi, if_true]
      rfl
  | learn => exact .inr rfl
  | exited signalled =>
    refine .inr ?_
    simp only [callMove, signalled, if_true]
    rfl
  | stopped other =>
    refine .inr ?_
    -- `other` rules out the branch in which the task is accepted.
    simp only [callMove]
    rfl

/-- A move of the system is a turn that one of its parts takes. -/
theorem exists_move_iff :
    (∃ e, Move w e w') ↔
      (∃ i call, w.calls[i]? = some call ∧
        ((call.stage = .made ∧ call.errand ≠ .letter ∧ w.begin i = w') ∨
          w.callMove i call = some w')) ∨
      w.workerMove = some w' ∨ w.releaseMove = some w' := by
  constructor
  · rintro ⟨e, h⟩
    -- What a move asks for is what its turn looks at.
    cases h with
    | advance found h => exact .inl ⟨_, _, found, turn_of_advances found h⟩
    | @enter i call message intake found h hi quiet attended room =>
      refine .inl ⟨i, call, found, .inr ?_⟩
      simp only [callMove, h, hi, quiet, attended, room, Bool.not_true, Bool.or_false,
        Bool.false_eq_true, if_false, if_true]
    | @produce pushed i interval call chain found h errand hpush =>
      refine .inl ⟨i, call, found, .inr ?_⟩
      simp only [callMove, h, errand, hpush]
    | quit working signalled =>
      refine .inr (.inl ?_)
      simp [workerMove, working.engine, working.intake, working.loop, signalled]
    | handle working quiet queue =>
      refine .inr (.inl ?_)
      simp [workerMove, working.engine, working.intake, working.loop, quiet, queue]
    | serve working quiet queue next =>
      refine .inr (.inl ?_)
      simp [workerMove, working.engine, working.intake, working.loop, quiet, queue, next]
    | clean working quiet queue next due =>
      refine .inr (.inl ?_)
      simp [workerMove, working.engine, working.intake, working.loop, quiet, queue, next, due]
    | release orphaned quiet =>
      refine .inr (.inr ?_)
      simp [releaseMove, orphaned, quiet]
  · rintro (⟨i, call, found, ⟨made, letter, rfl⟩ | h⟩ | h | h)
    · exact begin_move found made letter
    · exact callMove_move found h
    · exact workerMove_move h
    · exact releaseMove_move h

theorem move_move (h : w.move = some w') : ∃ e, Move w e w' := by
  rw [move, Option.or_eq_some_iff] at h
  rcases h with h | ⟨-, h⟩
  · obtain ⟨⟨call, i⟩, mem, h⟩ := List.exists_of_findSome?_eq_some h
    exact callMove_move (List.mem_zipIdx_iff_getElem?.mp mem) h
  · rcases Option.or_eq_some_iff.mp h with h | ⟨-, h⟩
    · exact workerMove_move h
    · exact releaseMove_move h

/-- A gateway is settled once nothing happens next and every call has begun. -/
theorem settled_of_move_eq_none (h : w.move = none)
    (begun : ∀ (i : Nat) (call : Call), w.calls[i]? = some call → call.stage ≠ .made) :
    w.Settled := by
  rw [move, Option.or_eq_none_iff, Option.or_eq_none_iff] at h
  obtain ⟨calls, worker, release⟩ := h
  intro e w' hmove
  rcases exists_move_iff.mp ⟨e, hmove⟩ with ⟨i, call, found, ⟨made, -, -⟩ | turn⟩ | turn | turn
  · exact begun i call found made
  · have idle : w.callMove i call = none :=
      List.findSome?_eq_none_iff.mp calls (call, i) (List.mem_zipIdx_iff_getElem?.mpr found)
    rw [idle] at turn
    cases turn
  · rw [worker] at turn
    cases turn
  · rw [release] at turn
    cases turn

end MinerGateway.World
