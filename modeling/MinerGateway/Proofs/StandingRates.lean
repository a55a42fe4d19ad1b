import MinerGateway.Proofs.Freshness
import Mathlib.Algebra.BigOperators.Group.Finset.Basic
import Mathlib.Data.List.Induction

/-!
Which reports of hash rates stand, in closed form.

`ratesAfter` follows a log event by event: a report replaces an earlier one, a cleanup forgets. When
the times in the log never fall, what it comes to can be said at once: a report stands if it is the
latest under its id and was not too old at the last cleanup (`mem_ratesAfter_iff`). The sum that is
published is then a sum over these reports, each id counted once (`toNat_total_ratesAfter`).

Only the last cleanup matters: with times that never fall, what a later cleanup spares an earlier
one has spared (`stands_cleaned_iff`).
-/

namespace MinerGateway

/-- The report that an event records, with its time. -/
def Event.recorded? : Event → Option RateEntry
  | .served now ⟨_, .report r⟩ _ _ _ => some ⟨r.id, r.rate, now⟩
  | _ => none

def recorded (log : List Event) : List RateEntry := log.filterMap Event.recorded?

/-- The latest report under an id. -/
def latest? (reports : List RateEntry) (id : Hash) : Option RateEntry :=
  reports.reverse.find? (·.id == id)

/-- The time of a cleanup. -/
def Event.sweep? : Event → Option Nat
  | .cleaned now => some now
  | _ => none

/-- The time of the last cleanup, or the start if there was none. -/
def lastSweep (log : List Event) : Nat := (log.filterMap Event.sweep?).getLast?.getD 0

/-- The time at which the worker did something, as far as it looks at the clock. -/
def Event.time? : Event → Option Nat
  | .served now .. | .cleaned now => some now
  | _ => none

def times (log : List Event) : List Nat := log.filterMap Event.time?

theorem Event.eq_cleaned {e : Event} {now : Nat} (h : e.sweep? = some now) : e = .cleaned now := by
  cases e <;> cases h
  rfl

theorem Event.of_recorded? {e : Event} {new : RateEntry} (h : e.recorded? = some new) :
    e.time? = some new.lastSeen ∧ e.sweep? = none ∧ ∀ expiry rates,
      e.updateRates expiry rates = new :: rates.filter (·.id != new.id) := by
  unfold recorded? at h
  split at h
  · cases h
    exact ⟨rfl, rfl, fun _ _ => rfl⟩
  · cases h

section

variable (log : List Event) {e : Event}

theorem recorded_concat (e : Event) :
    recorded (log ++ [e]) = recorded log ++ e.recorded?.toList := by
  rw [recorded, List.filterMap_append, recorded]
  cases h : e.recorded? <;> simp [h]

theorem times_concat (e : Event) : times (log ++ [e]) = times log ++ e.time?.toList := by
  rw [times, List.filterMap_append, times]
  cases h : e.time? <;> simp [h]

theorem lastSweep_cleaned (now : Nat) : lastSweep (log ++ [.cleaned now]) = now := by
  simp [lastSweep, Event.sweep?]

theorem lastSweep_concat (h : e.sweep? = none) : lastSweep (log ++ [e]) = lastSweep log := by
  simp [lastSweep, h]

end

theorem lastSweep_le {log : List Event} {now : Nat} (past : ∀ t ∈ times log, t ≤ now) :
    lastSweep log ≤ now := by
  rw [lastSweep]
  cases last : (log.filterMap Event.sweep?).getLast? with
  | none => exact Nat.zero_le _
  | some t =>
    obtain ⟨e, there, swept⟩ := List.mem_filterMap.mp (List.mem_of_getLast? last)
    refine past t (List.mem_filterMap.mpr ⟨e, there, ?_⟩)
    rw [Event.eq_cleaned swept, Event.time?]

theorem latest?_concat (reports : List RateEntry) (entry : RateEntry) (id : Hash) :
    latest? (reports ++ [entry]) id = if entry.id = id then some entry else latest? reports id := by
  rw [latest?, List.reverse_append, List.reverse_singleton, List.singleton_append, List.find?_cons]
  by_cases same : entry.id = id
  · simp [same]
  · rw [beq_false_of_ne same, if_neg same]
    rfl

theorem of_latest? {reports : List RateEntry} {id : Hash} {entry : RateEntry}
    (h : latest? reports id = some entry) : entry ∈ reports ∧ entry.id = id := by
  refine ⟨List.mem_reverse.mp (List.mem_of_find?_eq_some h), ?_⟩
  simpa using List.find?_some h

theorem latest?_filter (reports : List RateEntry) (id : Hash) :
    latest? (reports.filter (·.id == id)) id = latest? reports id := by
  rw [latest?, latest?, ← List.filter_reverse, List.find?_filter]
  congr 1
  funext entry
  by_cases same : entry.id == id <;> simp [same]

/-! ## The reports that stand -/

theorem updateRates_eq {expiry : Nat} {rates : List RateEntry}
    {e : Event} (unrecorded : e.recorded? = none)
    (unswept : e.sweep? = none) (going : e.ends = false) : e.updateRates expiry rates = rates := by
  unfold Event.updateRates
  split
  · cases unrecorded
  · cases unswept
  · cases going
  · rfl

theorem ratesAfter_concat (expiry : Nat) (log : List Event) (e : Event) :
    ratesAfter expiry (log ++ [e]) = e.updateRates expiry (ratesAfter expiry log) := by
  rw [ratesAfter, List.foldl_append]
  rfl

/-- The report is the latest under its id, and was not too old at the last cleanup. -/
def Stands (expiry : Nat) (log : List Event) (entry : RateEntry) : Prop :=
  latest? (recorded log) entry.id = some entry ∧ lastSweep log - entry.lastSeen ≤ expiry

section

variable {expiry : Nat} {log : List Event} {e : Event} {entry new : RateEntry}

/-- A new report stands, and of the others those under other ids. -/
theorem stands_recorded_iff (swept : lastSweep log ≤ new.lastSeen) (h : e.recorded? = some new) :
    Stands expiry (log ++ [e]) entry ↔
      entry = new ∨ (Stands expiry log entry ∧ entry.id ≠ new.id) := by
  rw [Stands, recorded_concat, h, Option.toList_some, latest?_concat,
    lastSweep_concat log (Event.of_recorded? h).2.1]
  by_cases same : new.id = entry.id
  · rw [if_pos same]
    constructor
    · rintro ⟨latest, -⟩
      exact .inl (Option.some.inj latest).symm
    · rintro (rfl | ⟨-, other⟩)
      · exact ⟨rfl, by omega⟩
      · exact absurd same.symm other
  · rw [if_neg same]
    constructor
    · intro standing
      exact .inr ⟨standing, Ne.symm same⟩
    · rintro (rfl | ⟨standing, -⟩)
      · exact absurd rfl same
      · exact standing

/-- What a later cleanup spares, an earlier one has spared. -/
theorem stands_cleaned_iff {now : Nat} (swept : lastSweep log ≤ now) :
    Stands expiry (log ++ [.cleaned now]) entry ↔
      Stands expiry log entry ∧ now - entry.lastSeen ≤ expiry := by
  have unrecorded : Event.recorded? (.cleaned now) = none := rfl
  rw [Stands, Stands, recorded_concat, lastSweep_cleaned, unrecorded, Option.toList_none,
    List.append_nil]
  constructor
  · rintro ⟨latest, recent⟩
    exact ⟨⟨latest, by omega⟩, recent⟩
  · rintro ⟨⟨latest, -⟩, recent⟩
    exact ⟨latest, recent⟩

end

/-- **A report stands if it is the latest under its id and was not too old at the last cleanup.** -/
theorem mem_ratesAfter_iff {expiry : Nat} {log : List Event} (sorted : (times log).Pairwise (· ≤ ·))
    (going : ∀ e ∈ log, e.ends = false) (entry : RateEntry) :
    entry ∈ ratesAfter expiry log ↔ Stands expiry log entry := by
  -- On the log from its last event: only a report and a cleanup change anything on either side.
  induction log using List.reverseRecOn with
  | nil => simp [ratesAfter, Stands, recorded, latest?]
  | append_singleton log e ih =>
    rw [times_concat, List.pairwise_append] at sorted
    obtain ⟨sorted, -, past⟩ := sorted
    have earlier : ∀ e ∈ log, e.ends = false := by
      intro x there
      exact going x (List.mem_append_left _ there)
    have still : e.ends = false := going e (List.mem_append_right _ List.mem_cons_self)
    have before := ih sorted earlier
    have swept : ∀ now, e.time? = some now → lastSweep log ≤ now := by
      intro now time
      exact lastSweep_le fun t there => past t there now (Option.mem_toList.mpr time)
    rw [ratesAfter_concat]
    cases hr : e.recorded? with
    | some new =>
      obtain ⟨time, -, update⟩ := Event.of_recorded? hr
      rw [stands_recorded_iff (swept _ time) hr, update, List.mem_cons, List.mem_filter, before,
        bne_iff_ne]
    | none =>
      cases hs : e.sweep? with
      | some now =>
        obtain rfl := Event.eq_cleaned hs
        rw [stands_cleaned_iff (swept now rfl), Event.updateRates, List.mem_filter, before,
          decide_eq_true_iff]
      | none =>
        rw [updateRates_eq hr hs still, before, Stands, Stands, recorded_concat, hr,
          Option.toList_none, List.append_nil, lastSweep_concat log hs]

theorem nodup_ratesAfter (expiry : Nat) (log : List Event) :
    ((ratesAfter expiry log).map RateEntry.id).Nodup := by
  induction log using List.reverseRecOn with
  | nil => exact List.nodup_nil
  | append_singleton log e ih =>
    rw [ratesAfter_concat]
    have kept : ∀ p : RateEntry → Bool,
        (((ratesAfter expiry log).filter p).map RateEntry.id).Nodup := by
      intro p
      exact ih.sublist (List.filter_sublist.map _)
    unfold Event.updateRates
    split
    · refine List.nodup_cons.mpr ⟨?_, kept _⟩
      simp
    · exact kept _
    · exact List.nodup_nil
    · exact ih

/-- The rates are added up over the reports that stand, saturating at the end. -/
theorem toNat_total_ratesAfter (expiry : Nat) (log : List Event) :
    (Ledger.total (ratesAfter expiry log)).toNat
      = min (UInt64.size - 1) (∑ entry ∈ (ratesAfter expiry log).toFinset, entry.rate.toNat) := by
  have nodup : (ratesAfter expiry log).Nodup := (nodup_ratesAfter expiry log).of_map _
  rw [Ledger.total, Word.toNat_sumSat, List.foldr_map, List.sum_toFinset _ nodup, List.sum_eq_foldr,
    List.foldr_map]

end MinerGateway
