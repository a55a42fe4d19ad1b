import MinerGateway.Proofs.PunctualSessions
import MinerGateway.Proofs.Ticking

/-!
The aggregate hash rate has an exact value.

Whenever the gateway is at rest and the exit signal was not given, the published rate is the sum of
the reports that count (`aggregate_rate`): of every id the latest one, unless it was older than the
expiry at the last multiple of the cleanup interval. So a report may outlive its expiry, but by less
than one interval, and the order in which reports of different ids come makes no difference.

Correspondence (telemetry ↔ definition):
  the reports that were served, with their times ↔ `recorded`
  the latest report of an id                     ↔ `latest?`
  the reports that count at an instant           ↔ `counted`

What is assumed: the cleanup interval is positive, and time passes punctually. The second is no
restriction on sessions: every session is a punctual run, and this is part of the theorem. Among
actions that are held back the worker may still have reports to serve; the rate is then as before.
-/

namespace MinerGateway

/-- The reports that count at a time: the latest under each id, unless it was too old at the last
multiple of the cleanup interval. -/
def counted (settings : EngineSettings) (now : Nat) (reports : List RateEntry) : Finset RateEntry :=
  reports.toFinset.filter fun entry =>
    latest? reports entry.id = some entry ∧
      now / settings.cleanupInterval * settings.cleanupInterval - entry.lastSeen
        ≤ settings.hashrateExpiry

section

variable {settings : EngineSettings} {now : Nat} {reports reports' : List RateEntry}
  {entry : RateEntry}

theorem mem_counted :
    entry ∈ counted settings now reports ↔
      latest? reports entry.id = some entry ∧
        now / settings.cleanupInterval * settings.cleanupInterval - entry.lastSeen
          ≤ settings.hashrateExpiry := by
  rw [counted, Finset.mem_filter, List.mem_toFinset]
  constructor
  · exact And.right
  · intro standing
    exact ⟨(of_latest? standing.1).1, standing⟩

theorem counted_once {entry' : RateEntry} (h : entry ∈ counted settings now reports)
    (h' : entry' ∈ counted settings now reports) (same : entry.id = entry'.id) :
    entry = entry' := by
  have latest := (mem_counted.mp h).1
  rw [same, (mem_counted.mp h').1] at latest
  exact (Option.some.inj latest).symm

/-- No latest report is missing before its expiry. -/
theorem counted_of_recent {id : Hash} (latest : latest? reports id = some entry)
    (recent : now - entry.lastSeen ≤ settings.hashrateExpiry) :
    entry ∈ counted settings now reports := by
  have swept : now / settings.cleanupInterval * settings.cleanupInterval ≤ now :=
    Nat.div_mul_le_self ..
  obtain ⟨-, rfl⟩ := of_latest? latest
  exact mem_counted.mpr ⟨latest, by omega⟩

/-- No report counts for more than one interval longer. -/
theorem recent_of_counted (ticks : 0 < settings.cleanupInterval)
    (h : entry ∈ counted settings now reports) :
    now - entry.lastSeen < settings.hashrateExpiry + settings.cleanupInterval := by
  have standing := (mem_counted.mp h).2
  have swept : now < now / settings.cleanupInterval * settings.cleanupInterval
      + settings.cleanupInterval := Nat.lt_div_mul_add ticks
  omega

/-- Only the order of the reports under one id matters. -/
theorem counted_congr (same : ∀ id, reports'.filter (·.id == id) = reports.filter (·.id == id)) :
    counted settings now reports' = counted settings now reports := by
  ext entry
  rw [mem_counted, mem_counted, ← latest?_filter reports', same, latest?_filter]

end

theorem Sealer.Passes.loop_ne_crashed {s s' : Sealer} {log : List Event} (h : s.Passes log s')
    (start : s.loop ≠ .crashed) : s'.loop ≠ .crashed := by
  induction h with
  | refl => exact start
  | next _ last ih =>
    cases last with
    | served =>
      rw [(Sealer.serve_frame ..).1]
      exact ih
    | ended => simp [Sealer.exit]
    | _ => exact ih

namespace World

variable {settings : EngineSettings} {verifier : Verifier} {w : World} {log : List Event}

theorem running_of_unsignalled (run : (started settings verifier).Run log w)
    (ticks : 0 < settings.cleanupInterval) (quiet : w.isSignalled = false) :
    ∃ sealer, w.engine = .sealer sealer ∧ sealer.loop = .running ∧
      (Sealer.start settings verifier).Passes log sealer := by
  obtain ⟨sealer, engine, passes⟩ := run.passes_start
  have start : (Sealer.start settings verifier).loop ≠ .crashed := by
    simp [Sealer.start, Nat.ne_of_gt ticks]
  refine ⟨sealer, engine, ?_, passes⟩
  cases loop : sealer.loop with
  | running => rfl
  | crashed => exact absurd loop (passes.loop_ne_crashed start)
  | ended =>
    obtain ⟨intake, hi, sound⟩ := sound_run run (sound_started ..)
    rw [isSignalled_eq hi, sound.ended sealer engine loop] at quiet
    cases quiet

theorem hashrate_of_atRest (run : (started settings verifier).RunBy Punctual log w)
    (ticks : 0 < settings.cleanupInterval) (rest : w.AtRest) (quiet : w.isSignalled = false) :
    w.engine.hashrate.toNat =
      min (UInt64.size - 1)
        (∑ entry ∈ counted settings w.now (recorded log), entry.rate.toNat) := by
  obtain ⟨sealer, engine, running, passes⟩ := running_of_unsignalled run.run ticks quiet
  have going := passes.going running
  obtain ⟨rates, published⟩ := passes.rates_eq rfl rfl
  have swept : lastSweep log = w.now / settings.cleanupInterval * settings.cleanupInterval :=
    (ticking_run run engine running).lastSweep_eq engine (sound_run run.run (sound_started ..)) rest
  have sorted : (times log).Pairwise (· ≤ ·) := (List.pairwise_append.mp (sorted_times run)).1
  have standing : (ratesAfter settings.hashrateExpiry log).toFinset
      = counted settings w.now (recorded log) := by
    ext entry
    rw [List.mem_toFinset, mem_ratesAfter_iff sorted going, Stands, mem_counted, swept]
  calc w.engine.hashrate.toNat
      = (Ledger.total (ratesAfter settings.hashrateExpiry log)).toNat := by
        rw [engine, Engine.hashrate, published, rates]
        rfl
    _ = min (UInt64.size - 1) (∑ entry ∈ counted settings w.now (recorded log),
          entry.rate.toNat) := by
        rw [toNat_total_ratesAfter, standing]

/-- **The aggregate hash rate has an exact value.** Every session on a started sealer passes its
time punctually, and after every action that is not held back it is at rest; what is then shown is
the rate of the engine. In every state at rest before the exit signal this is the sum of the latest
reports of all ids, less those too old at the last multiple of the cleanup interval, and the largest
word if the sum does not fit. No report is missing before its expiry, none counts one interval after
it, and only the order of the reports under one id matters. -/
theorem aggregate_rate (settings : EngineSettings) (verifier : Verifier)
    (ticks : 0 < settings.cleanupInterval) :
    let start := started settings verifier
    (∀ actions, (∃ log, start.RunBy Punctual log (start.settle.after actions)) ∧
        ((∀ action, actions.getLast? ≠ some (true, action)) →
          (start.settle.after actions).AtRest)) ∧
      (∀ (w : World) action rate, (w.step false action).1.hashrate = some rate →
        rate = (w.step false action).2.engine.hashrate) ∧
      ∀ log w, start.RunBy Punctual log w → w.AtRest → w.isSignalled = false →
        let standing := counted settings w.now (recorded log)
        w.engine.hashrate.toNat
            = min (UInt64.size - 1) (∑ entry ∈ standing, entry.rate.toNat) ∧
          (∀ entry ∈ standing, ∀ entry' ∈ standing, entry.id = entry'.id → entry = entry') ∧
          (∀ id entry, latest? (recorded log) id = some entry →
            w.now - entry.lastSeen ≤ settings.hashrateExpiry → entry ∈ standing) ∧
          (∀ entry ∈ standing,
            w.now - entry.lastSeen < settings.hashrateExpiry + settings.cleanupInterval) ∧
          ∀ log' w', start.RunBy Punctual log' w' → w'.AtRest → w'.isSignalled = false →
            w'.now = w.now →
            (∀ id, (recorded log').filter (·.id == id) = (recorded log).filter (·.id == id)) →
            w'.engine.hashrate = w.engine.hashrate := by
  intro start
  refine ⟨?_, ?_, ?_⟩
  · intro actions
    obtain ⟨run, -, rest⟩ := punctual_session settings verifier ticks actions
    exact ⟨run, rest⟩
  · intro w action rate shown
    rw [step_hashrate] at shown
    rw [step_snd]
    split at shown
    · exact (Option.some.inj shown).symm
    · cases shown
  intro log w run rest quiet standing
  have value := hashrate_of_atRest run ticks rest quiet
  refine ⟨value, fun _ h _ h' => counted_once h h', fun _ _ => counted_of_recent,
    fun _ => recent_of_counted ticks, ?_⟩
  intro log' w' run' rest' quiet' now same
  have value' := hashrate_of_atRest run' ticks rest' quiet'
  rw [now, counted_congr same, ← value] at value'
  exact UInt64.toNat_inj.mp value'

/-- Two miners report, the second 6 s after the first, and 9 s pass. -/
def expiring : List (Bool × Action) :=
  [(false, .request (.submitHashrate 5 (.filled 32 1))), (false, .sleep 6000),
    (false, .request (.submitHashrate 7 (.filled 32 2))), (false, .sleep 9000)]

/-- At the cleanup after 15 s the first report is too old, so only the second one counts. -/
theorem aggregate_rate_expiring :
    ∃ log, (started {} .acceptAll).RunBy Punctual log
        ((started {} .acceptAll).settle.after expiring) ∧
      min (UInt64.size - 1) (∑ entry ∈ counted {} 15000 (recorded log), entry.rate.toNat) = 7 := by
  obtain ⟨sessions, -, value⟩ := aggregate_rate {} .acceptAll (by decide)
  obtain ⟨⟨log, run⟩, rest⟩ := sessions expiring
  have now : ((started {} .acceptAll).settle.after expiring).now = 15000 := by decide +kernel
  have quiet : ((started {} .acceptAll).settle.after expiring).isSignalled = false := by
    decide +kernel
  have shown : ((started {} .acceptAll).settle.after expiring).engine.hashrate.toNat = 7 := by
    decide +kernel
  have rest : ((started {} .acceptAll).settle.after expiring).AtRest := by
    apply rest
    intro action last
    cases last
  have exact := (value log _ run rest quiet).1
  rw [shown, now] at exact
  exact ⟨log, run, exact.symm⟩

end World

end MinerGateway
