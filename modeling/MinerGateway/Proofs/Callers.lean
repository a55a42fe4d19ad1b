import MinerGateway.Proofs.Attending

/-!
Other calls in front of the same gateway.

What the worker does depends on the calls only by the letters that they handed over, and what one
call does depends on no other call. So where the calls of a gateway are exchanged for others, it is
enough to see that call by call they come to corresponding stages (`callMove_withCalls`) and that
they take the same replies (`workerMove_withCalls`): then the gateway makes the same moves
(`move_withCalls`).
-/

namespace MinerGateway

/-- It makes no difference whether the calls are exchanged before one of them comes to a stage,
which is another stage among the exchanged ones, or after. -/
def Carries (exchange : List Call → List Call) (calls : List Call)
    (i : Nat) (stage stage' : Stage) :
    Prop :=
  (exchange calls).modify i (fun call => { call with stage := stage' })
    = exchange (calls.modify i fun call => { call with stage })

/-- The exchanged calls take the replies that the calls take. -/
def TakesAlike (exchange : List Call → List Call) : Prop :=
  ∀ calls i reply, (exchange calls).modify i (Call.receive reply)
    = exchange (calls.modify i (Call.receive reply))

theorem append_modify {α : Type} {f : α → α} {l : List α} {i : Nat} (inside : i < l.length)
    (new : List α) : (l ++ new).modify i f = l.modify i f ++ new := by
  rw [List.modify_eq_take_cons_drop inside, List.modify_eq_take_cons_drop (by simp; omega)]
  simp [List.take_append_of_le_length, List.drop_append_of_le_length,
    List.getElem_append_left, inside, Nat.le_of_lt inside, Nat.succ_le_of_lt inside]

namespace World

def withCalls (exchange : List Call → List Call) (w : World) : World :=
  { w with calls := exchange w.calls }

variable {exchange : List Call → List Call} {w : World} {i : Nat}

theorem setStage_withCalls {stage stage' : Stage} (h : Carries exchange w.calls i stage stage') :
    (w.withCalls exchange).setStage i stage' = (w.setStage i stage).withCalls exchange :=
  congrArg (fun calls => { w with calls }) h

theorem pushTask_withCalls (w : World) (task : Task) :
    (w.withCalls exchange).pushTask task = (w.pushTask task).map (withCalls exchange) := by
  have signalled : (w.withCalls exchange).isSignalled = w.isSignalled := rfl
  have same : (w.withCalls exchange).engine = w.engine := rfl
  cases engine : w.engine with
  | sealer s =>
    simp only [pushTask, same, engine, signalled]
    by_cases refused : (w.isSignalled || s.loop != .running) = true
    · rw [if_pos refused, if_pos refused]
      rfl
    · rw [if_neg refused, if_neg refused]
      rfl
  | _ =>
    simp only [pushTask, same, engine]
    rfl

/-- A call moves alike if it is at the same stage, is answered alike, and is the same source of
synthetic work if it is one. -/
theorem callMove_withCalls {call call' : Call} (stage : call'.stage = call.stage)
    (source : ∀ interval, call'.errand = .devnet interval ↔ call.errand = .devnet interval)
    (still : ∀ stage, (∀ answer, stage ≠ .finished answer) → Carries exchange w.calls i stage stage)
    (told : ∀ reply, Carries exchange w.calls i (.finished (call.errand.answer reply))
      (.finished (call'.errand.answer reply)))
    (plain : ∀ answer, answer = .exited ∨ answer = .sourceStopped →
      Carries exchange w.calls i (.finished answer) (.finished answer)) :
    (w.withCalls exchange).callMove i call' = (w.callMove i call).map (withCalls exchange) := by
  have intake : (w.withCalls exchange).intake = w.intake := rfl
  have signalled : (w.withCalls exchange).isSignalled = w.isSignalled := rfl
  have answered : ∀ reply, (w.withCalls exchange).finish i (call'.errand.answer reply)
      = (w.finish i (call.errand.answer reply)).withCalls exchange :=
    fun reply => setStage_withCalls (told reply)
  unfold callMove
  rw [stage, intake]
  cases call.stage with
  | made | sent | finished => rfl
  | waiting message =>
    simp only
    cases w.intake with
    | none => exact congrArg some (answered .lost)
    | some channels =>
      let entered : World := { w with intake := some (channels.put ⟨i, message⟩) }
      have sent : Carries exchange entered.calls i .sent .sent := still .sent (by simp)
      simp only
      split
      · exact congrArg some (answered .lost)
      · split
        · exact congrArg some (setStage_withCalls sent)
        · rfl
  | replied reply => exact congrArg some (answered reply)
  | watching =>
    simp only [signalled]
    split
    · exact congrArg some (setStage_withCalls (plain .exited (.inl rfl)))
    · rfl
  | producing chain due =>
    have stopped : (w.withCalls exchange).finish i .sourceStopped
        = (w.finish i .sourceStopped).withCalls exchange :=
      setStage_withCalls (plain .sourceStopped (.inr rfl))
    cases due with
    | false => rfl
    | true =>
      cases errand : call.errand with
      | devnet interval =>
        simp only [(source interval).mpr errand, pushTask_withCalls]
        cases pushed : w.pushTask (chain.task Sha256.digest) with
        | error => exact congrArg some stopped
        | ok next =>
          have calls : next.calls = w.calls := by
            obtain ⟨s, -, -, -, rfl⟩ := pushTask_eq_ok pushed
            rfl
          have produced :
              Carries exchange next.calls i (.producing (chain.advance Sha256.digest) false)
              (.producing (chain.advance Sha256.digest) false) := by
            rw [calls]
            exact still _ (by simp)
          exact congrArg (some <| World.setTimer · (next.now + interval) (.call i))
            (setStage_withCalls produced)
      | _ =>
        cases errand' : call'.errand with
        | devnet interval => cases errand.symm.trans ((source interval).mp errand')
        | _ => exact congrArg some stopped

theorem deliver_withCalls (takes : TakesAlike exchange) (w : World) (i : Nat) (reply : Reply) :
    (w.withCalls exchange).deliver i reply = (w.deliver i reply).withCalls exchange :=
  congrArg (fun calls => { w with calls }) (takes w.calls i reply)

theorem lose_withCalls (takes : TakesAlike exchange) (letters : List Letter) (w : World) :
    (w.withCalls exchange).lose letters = (w.lose letters).withCalls exchange := by
  induction letters generalizing w with
  | nil => rfl
  | cons letter rest ih =>
    have first := deliver_withCalls takes w letter.sender .lost
    exact (congrArg (lose · rest) first).trans (ih _)

theorem workerMove_withCalls (takes : TakesAlike exchange) (w : World) :
    (w.withCalls exchange).workerMove = w.workerMove.map (withCalls exchange) := by
  have same : (w.withCalls exchange).engine = w.engine ∧ (w.withCalls exchange).intake = w.intake :=
    ⟨rfl, rfl⟩
  unfold workerMove
  rw [same.1, same.2]
  split
  · next s intake _ _ =>
    split
    · rfl
    split
    · exact congrArg some (lose_withCalls takes intake.letters
        { w with engine := .sealer s.exit, intake := some intake.abandon })
    split
    · rfl
    · split
      · next letter rest _ =>
        exact congrArg some (deliver_withCalls takes { w with
          engine := .sealer (s.serve w.now letter.message).1, intake := some rest } letter.sender _)
      · split <;> rfl
  · rfl

/-- **The gateway makes the same move**, if the calls do and the engine is held alike. -/
theorem move_withCalls (takes : TakesAlike exchange)
    (calls : (w.withCalls exchange).anyCallMove = w.anyCallMove.map (withCalls exchange))
    (orphaned : (w.withCalls exchange).isOrphaned = w.isOrphaned) :
    (w.withCalls exchange).move = w.move.map (withCalls exchange) := by
  have release : (w.withCalls exchange).releaseMove = w.releaseMove.map (withCalls exchange) := by
    have signalled : (w.withCalls exchange).isSignalled = w.isSignalled := rfl
    unfold releaseMove
    rw [orphaned, signalled]
    split <;> rfl
  rw [move, move, calls, workerMove_withCalls takes, release, Option.map_or, Option.map_or]

end World

end MinerGateway
