import MinerGateway.Proofs.Linearization

/-!
How fresh the answers of a sealer are.

Whoever fetches work gets the package of the last task that was pushed before the worker answered:
the current task is the one that was handled last (`Passes.current_eq`), and the worker takes up all
tasks first and in the order of the pushes (`handledTasks_append_tasks`). The published hash rate is
the sum of the reports served so far, the latest of each miner, less those that a cleanup found too
old (`rates_eq`).

Both are statements about a log: the first by the tasks pushed before an event, the second by
`ratesAfter`, which follows the reports and the cleanups one after another.
-/

namespace MinerGateway

/-- The latest reports of all miners after one more event. -/
def Event.updateRates (expiry : Nat) (rates : List RateEntry) : Event → List RateEntry
  | .served now ⟨_, .report r⟩ _ _ _ => ⟨r.id, r.rate, now⟩ :: rates.filter (·.id != r.id)
  | .cleaned now => rates.filter fun entry => now - entry.lastSeen ≤ expiry
  | .ended _ => []
  | _ => rates

/-- The latest reports of all miners after a log. -/
def ratesAfter (expiry : Nat) (log : List Event) : List RateEntry :=
  log.foldl (Event.updateRates expiry) []

/-- The event leaves a report of this time and id in its place. -/
def Event.Keeps (expiry now : Nat) (id : Hash) : Event → Prop
  | .served _ ⟨_, .report r⟩ _ _ _ => r.id ≠ id
  | .cleaned later => later - now ≤ expiry
  | .ended _ => False
  | _ => True

/-- The hash rate that the event tells. -/
def Event.reads? : Event → Option UInt64
  | .read rate => some rate
  | .finished _ (.readHashrate _) (.response ⟨_, .ok (.hashrate rate)⟩) => some rate
  | _ => none

/-! ## Reports -/

theorem mem_updateRates {expiry : Nat} {rates : List RateEntry} {entry : RateEntry} {e : Event}
    (h : entry ∈ rates) (keeps : e.Keeps expiry entry.lastSeen entry.id) :
    entry ∈ e.updateRates expiry rates := by
  unfold Event.updateRates
  split
  · next now sender r before after reply =>
    have other : r.id ≠ entry.id := keeps
    refine List.mem_cons_of_mem _ (List.mem_filter.mpr ⟨h, ?_⟩)
    exact bne_iff_ne.mpr (Ne.symm other)
  · next later =>
    exact List.mem_filter.mpr ⟨h, decide_eq_true keeps⟩
  · exact absurd keeps id
  · exact h

/-- A report stays among the latest until it is replaced or too old. -/
theorem mem_ratesAfter {expiry now : Nat} {sender : Nat} {r : RateReport} {before after : Sealer}
    {reply : Reply} (early late : List Event) (keeps : ∀ e ∈ late, e.Keeps expiry now r.id) :
    ⟨r.id, r.rate, now⟩ ∈ ratesAfter expiry
      (early ++ .served now ⟨sender, .report r⟩ before after reply :: late) := by
  unfold ratesAfter
  rw [List.foldl_append, List.foldl_cons]
  have here : (⟨r.id, r.rate, now⟩ : RateEntry) ∈ Event.updateRates expiry
      (early.foldl (Event.updateRates expiry) [])
      (.served now ⟨sender, .report r⟩ before after reply) := List.mem_cons_self
  generalize Event.updateRates expiry _ _ = rates at here ⊢
  induction late generalizing rates with
  | nil => exact here
  | cons e rest ih =>
    have later : ∀ x ∈ rest, x.Keeps expiry now r.id := by
      intro x hx
      exact keeps x (List.mem_cons_of_mem _ hx)
    have still := mem_updateRates here (keeps e List.mem_cons_self)
    exact ih later _ still

namespace Sealer

variable {s s' : Sealer} {e : Event} {front : List Event}

theorem Takes.rates (h : s.Takes e s') (sum : s.ledger.published = Ledger.total s.ledger.rates) :
    s'.ledger.rates = e.updateRates s.settings.hashrateExpiry s.ledger.rates ∧
      s'.ledger.published = Ledger.total s'.ledger.rates := by
  cases h with
  | @served now letter =>
    obtain ⟨sender, message⟩ := letter
    cases message with
    | fetch => exact ⟨rfl, sum⟩
    | report r => exact ⟨rfl, rfl⟩
    | submission sub =>
      have same : (s.serve now (.submission sub)).1.ledger = s.ledger := by
        simp only [serve]
        split <;> rfl
      rw [same]
      exact ⟨rfl, sum⟩
  | @cleaned now =>
    -- Purging old tasks does not touch the reports.
    have purged : ∀ (ledger : Ledger) (threshold : UInt64), (ledger.purge threshold).rates =
        ledger.rates ∧ (ledger.purge threshold).published = ledger.published := by
      intro ledger threshold
      unfold Ledger.purge
      split <;> exact ⟨rfl, rfl⟩
    obtain ⟨rates, published⟩ :=
      purged (s.ledger.expire s.settings.hashrateExpiry now) s.settings.staleThreshold
    refine ⟨rates, published.trans ?_⟩
    rw [Ledger.cleanup, rates]
    rfl
  | ended => exact ⟨rfl, rfl⟩
  | @apart e h =>
    cases e with
    | served | cleaned | ended => cases h
    | _ => exact ⟨rfl, sum⟩
  | _ => exact ⟨rfl, sum⟩

/-- **The published rate is the sum of the latest reports.** -/
theorem Passes.rates_eq (h : s.Passes front s') (empty : s.ledger.rates = [])
    (zero : s.ledger.published = 0) :
    s'.ledger.rates = ratesAfter s.settings.hashrateExpiry front ∧
      s'.ledger.published = Ledger.total s'.ledger.rates := by
  induction h with
  | refl =>
    refine ⟨empty, ?_⟩
    rw [zero, empty]
    rfl
  | @next front s' e s'' before last ih =>
    obtain ⟨rates, sum⟩ := ih
    obtain ⟨rates', sum'⟩ := last.rates sum
    refine ⟨?_, sum'⟩
    rw [rates', rates, before.constant.1, ratesAfter, ratesAfter, List.foldl_append]
    rfl

/-! ## Tasks -/

theorem Takes.running (h : s.Takes e s') (running : s'.loop = .running) :
    s.loop = .running ∧ e.ends = false := by
  cases h with
  | ended => cases running
  | @apart e h =>
    refine ⟨running, ?_⟩
    cases e with
    | ended => cases h
    | _ => rfl
  | served => exact ⟨by assumption, rfl⟩
  | _ => exact ⟨running, rfl⟩

theorem Passes.going (h : s.Passes front s') (running : s'.loop = .running) :
    ∀ e ∈ front, e.ends = false := by
  induction h with
  | refl =>
    intro e he
    exact absurd he List.not_mem_nil
  | next _ last ih =>
    obtain ⟨before, still⟩ := last.running running
    intro x hx
    rcases List.mem_append.mp hx with hx | hx
    · exact ih before x hx
    · rw [List.mem_singleton.mp hx]
      exact still

/-- **Tasks are handled in the order in which they were pushed.** -/
theorem Passes.handledTasks_append_tasks (h : s.Passes front s') (start : s.tasks = [])
    (going : ∀ e ∈ front, e.ends = false) : handledTasks front ++ s'.tasks = pushedTasks front := by
  induction h with
  | refl => exact start
  | @next front s' e s'' _ last ih =>
    have earlier : ∀ e ∈ front, e.ends = false := by
      intro e he
      exact going e (List.mem_append_left _ he)
    have before := ih earlier
    have still := going e (List.mem_append_right _ List.mem_cons_self)
    rw [handledTasks_append, pushedTasks_append, ← before]
    cases last with
    | pushed => simp [handledTasks, pushedTasks]
    | handled _ queue => simp [handledTasks, pushedTasks, queue]
    | served _ queue =>
      rw [(s'.serve_frame _ _).2.1, queue]
      simp [handledTasks, pushedTasks]
    | ended => cases still
    | apart h =>
      cases e with
      | pushed | handled => cases h
      | _ => simp [handledTasks, pushedTasks]
    | _ => simp [handledTasks, pushedTasks]

theorem Passes.current_eq (h : s.Passes front s') (start : s.ledger.current = none) :
    s'.ledger.current = (handledTasks front).getLast? := by
  induction h with
  | refl => exact start
  | @next front s' e s'' _ last ih =>
    rw [handledTasks_append]
    cases last with
    | handled => simp [handledTasks, Ledger.push]
    | @served now letter =>
      have same : (s'.serve now letter.message).1.ledger.current = s'.ledger.current := by
        cases letter.message with
        | submission sub =>
          simp only [serve]
          split <;> rfl
        | _ => rfl
      rw [same, ih]
      simp [handledTasks]
    | cleaned =>
      refine Eq.trans ?_ (ih.trans (by simp [handledTasks]))
      unfold Ledger.cleanup Ledger.purge
      split <;> rfl
    | apart h =>
      rw [ih]
      cases e with
      | handled => cases h
      | _ => simp [handledTasks]
    | _ =>
      refine Eq.trans ?_ (ih.trans (by simp [handledTasks]))
      rfl

end Sealer

end MinerGateway
