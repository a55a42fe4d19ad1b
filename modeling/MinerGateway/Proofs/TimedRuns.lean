import MinerGateway.Proofs.Letters
import MinerGateway.Proofs.Transition

/-!
Runs in which time passes as it should.

A run as such may let time pass whenever it likes. In a session time passes only when nothing else
can happen, and never past a timer: such steps are `Punctual`. `World.RunBy` is a run each of whose
steps satisfies a condition of this kind, and forgets to a run.
-/

namespace MinerGateway.World

/-- Time stands still from one state to the other. -/
def Still (w w' : World) : Prop := w'.now = w.now

/-- Time stands still, or it passes in a settled gateway, not back and not past a timer. -/
def Punctual (w w' : World) : Prop :=
  w'.now = w.now ∨ (w.Settled ∧ w.now ≤ w'.now ∧ ∀ timer ∈ w.timers, w'.now ≤ timer.due)

/-- A run with its log, each step of which satisfies a condition on the states before and after it.
-/
inductive RunBy (ok : World → World → Prop) (start : World) : List Event → World → Prop where
  | refl : RunBy ok start [] start
  | next {log : List Event} {w w' : World} {e : Event} (before : RunBy ok start log w)
      (step : Step w e w') (fine : ok w w') : RunBy ok start (log ++ [e]) w'

variable {ok ok' : World → World → Prop} {w w' : World} {e : Event}

namespace RunBy

variable {a b c : World} {log more : List Event}

theorem single (step : Step w e w') (fine : ok w w') : w.RunBy ok [e] w' := .next .refl step fine

theorem run (h : a.RunBy ok log b) : a.Run log b := by
  induction h with
  | refl => exact .refl
  | next _ step _ ih => exact .next ih step

theorem trans (h : a.RunBy ok log b) (h' : b.RunBy ok more c) : a.RunBy ok (log ++ more) c := by
  induction h' with
  | refl =>
    rw [List.append_nil]
    exact h
  | next _ step fine ih =>
    rw [← List.append_assoc]
    exact .next ih step fine

theorem mono (h : a.RunBy ok log b) (weaker : ∀ w w', ok w w' → ok' w w') : a.RunBy ok' log b := by
  induction h with
  | refl => exact .refl
  | next _ step fine ih => exact .next ih step (weaker _ _ fine)

theorem punctual (h : a.RunBy Still log b) : a.RunBy Punctual log b :=
  h.mono fun _ _ still => .inl still

end RunBy

theorem lose_clock (letters : List Letter) (w : World) :
    (w.lose letters).now = w.now ∧ (w.lose letters).timers = w.timers := by
  induction letters generalizing w with
  | nil => exact ⟨rfl, rfl⟩
  | cons letter rest ih => exact ih (w.deliver letter.sender .lost)

theorem fire_clock (w : World) (owner : Owner) :
    (w.fire owner).now = w.now ∧ (w.fire owner).timers = w.timers := by
  unfold fire
  split
  · split <;> exact ⟨rfl, rfl⟩
  · exact ⟨rfl, rfl⟩
  · exact ⟨rfl, rfl⟩

theorem pushTask_clock {task : Task} (h : w.pushTask task = .ok w') :
    w'.now = w.now ∧ w'.timers = w.timers := by
  unfold pushTask at h
  split at h
  · split at h
    · cases h
    · cases h
      exact ⟨rfl, rfl⟩
  · cases h

/-- **Moves take no time.** -/
theorem still_move (step : Move w e w') : Still w w' := by
  cases step with
  | produce _ _ _ pushed => exact (pushTask_clock pushed).1
  | quit => exact (lose_clock _ _).1
  | _ => rfl

end MinerGateway.World
