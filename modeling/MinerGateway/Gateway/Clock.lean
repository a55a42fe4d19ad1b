import MinerGateway.Gateway.Settle

/-!
The passing of time.

Time stands still while anything can happen. When it passes, timers go off in the order of their
times, those of one time in the order in which they were set, and after each of them everything that
follows from it happens before the next one goes off. A timer whose owner is gone has no effect.

Correspondence (clock ↔ definition):
  the timer that goes off next         ↔ `nextTimer`
  what it brings about                 ↔ `fire`
  letting time pass up to an instant   ↔ `advance`
  sleeping, after everything that is due ↔ `sleep`

Time is a number of milliseconds. That a step takes no time is the assumption of the whole model: of
how long anything really takes nothing is said.
-/

namespace MinerGateway.World

/-- The earliest timer due by `target`, the first of several, and the others. -/
def nextTimer (target : Nat) : List Timer → Option (Timer × List Timer)
  | [] => none
  | timer :: rest =>
    match nextTimer target rest with
    | some (earlier, others) =>
      if earlier.due < timer.due then some (earlier, timer :: others) else some (timer, rest)
    | none => if timer.due ≤ target then some (timer, rest) else none

/-- A timer goes off. -/
def fire (w : World) (owner : Owner) : World :=
  match owner, w.engine with
  | .worker, .sealer sealer =>
    if sealer.loop = .running then
      { w with engine := .sealer { sealer with cleanupDue := true } }
    else w
  | .worker, _ => w
  | .call index, _ => { w with calls := w.calls.modify index Call.fall }

/-- Lets time pass up to `target`, with at most `fuel` timers going off. -/
def advance : (fuel : Nat) → (target : Nat) → World → World
  | 0, target, w => { w with now := target }
  | fuel + 1, target, w =>
    match nextTimer target w.timers with
    | none => { w with now := target }
    | some (timer, timers) =>
      advance fuel target ({ w with now := timer.due, timers }.fire timer.owner).quiesce

/-- A bound on the timers that go off up to `target`: each one that does is set again, if at all,
for a later time. -/
def timerBound (w : World) (target : Nat) : Nat :=
  w.timers.foldr (fun timer sum => (target + 1 - timer.due) + sum) 0

/-- Lets everything happen that is due, then `duration` milliseconds pass. -/
def sleep (w : World) (duration : Nat) : World :=
  let w := w.settle
  let target := w.now + duration
  w.advance (w.timerBound target) target

end MinerGateway.World
