import Mathlib.Algebra.Order.BigOperators.Group.List
import Mathlib.Algebra.Order.Ring.Nat
import MinerGateway.Proofs.Histories

/-!
The published hash rate is the exact sum of the reports, cut off at the largest word.

The worker looks its reports up by id and may come upon them in any order, another one each time.
`Performs` is an operation of such a worker, which adds the rates up in the order in which it finds
them, and `Performed` a history of operations. No order shows: saturating on the way comes to the
same as saturating once at the end (`Ledger.toNat_total`). What the worker holds is told from the
history alone, whatever the times in it: a report is held if no operation since has taken it away
(`Performed.mem_rates_iff`).

What is proved (`published_rate_exact`), after every history and in every order of adding up:
  1. the published rate is the smaller of the exact sum and the largest word;
  2. each id has one report, the last one recorded, unless a cleanup took it away since;
  3. a cleanup takes away exactly the reports that were not renewed for longer than the expiry, does
     not raise the rate, and changes nothing when it is repeated at the same time or an earlier one.

What is assumed: nothing of the times, which may repeat or go back.
-/

namespace MinerGateway

namespace Operation

/-- Whether the operation announces a new sum of the rates. -/
def announces : Operation → Bool
  | .serve _ (.report _) | .cleanup _ => true
  | _ => false

/-- The operation is no report under the id of the entry, and no cleanup that finds the entry too
old. -/
def Spares (expiry : Nat) (entry : RateEntry) : Operation → Prop
  | .serve _ (.report r) => r.id ≠ entry.id
  | .cleanup now => now ≤ entry.lastSeen + expiry
  | _ => True

def reportOf (entry : RateEntry) : Operation :=
  .serve entry.lastSeen (.report ⟨entry.rate, entry.id⟩)

theorem report_eq_reportOf_iff {now : Nat} {r : RateReport} {entry : RateEntry} :
    Operation.serve now (.report r) = reportOf entry ↔ entry = ⟨r.id, r.rate, now⟩ := by
  constructor
  · intro same
    cases same
    rfl
  · rintro rfl
    rfl

theorem spares_of_silent {operation : Operation} (silent : operation.announces = false)
    (expiry : Nat) (entry : RateEntry) : operation.Spares expiry entry := by
  unfold announces at silent
  split at silent
  · cases silent
  · cases silent
  · next report cleanup =>
    unfold Spares
    split
    · exact absurd rfl (report _ _)
    · exact absurd rfl (cleanup _)
    · trivial

end Operation

/-! ## Sums -/

namespace Ledger

variable {ledger : Ledger} {settings : EngineSettings}
  {rates order : List RateEntry} {entry : RateEntry} {now : Nat}

theorem toNat_total (rates : List RateEntry) :
    (total rates).toNat = min (UInt64.size - 1) (rates.map (·.rate.toNat)).sum := by
  rw [total, Word.toNat_sumSat, List.foldr_map, List.sum_eq_foldr, List.foldr_map]

/-- **The sum does not depend on the order.** -/
theorem total_perm (perm : order.Perm rates) : total order = total rates := by
  rw [← UInt64.toNat_inj, toNat_total, toNat_total, (perm.map _).sum_eq]

theorem total_le_of_sublist (fewer : order.Sublist rates) : total order ≤ total rates := by
  have sum : (order.map (·.rate.toNat)).sum ≤ (rates.map (·.rate.toNat)).sum :=
    (fewer.map _).sum_le_sum fun _ _ => Nat.zero_le _
  rw [UInt64.le_iff_toNat_le, toNat_total, toNat_total]
  exact min_le_min_left _ sum

/-! ## What operations do to the reports -/

theorem mem_rates_record {report : RateReport} :
    entry ∈ (ledger.record report now).rates ↔
      entry = ⟨report.id, report.rate, now⟩ ∨ (entry ∈ ledger.rates ∧ entry.id ≠ report.id) := by
  simp [record, publish]

theorem rates_cleanup (ledger : Ledger) (settings : EngineSettings) (now : Nat) :
    (ledger.cleanup settings now).rates
        = ledger.rates.filter (fun entry => now - entry.lastSeen ≤ settings.hashrateExpiry) ∧
      (ledger.cleanup settings now).published = total (ledger.cleanup settings now).rates := by
  unfold cleanup purge
  split <;> exact ⟨rfl, rfl⟩

/-- **A cleanup removes the entries that were not renewed for longer than the expiry**, however much
newer than the cleanup the others are. -/
theorem mem_rates_cleanup :
    entry ∈ (ledger.cleanup settings now).rates ↔
      entry ∈ ledger.rates ∧ now ≤ entry.lastSeen + settings.hashrateExpiry := by
  rw [(rates_cleanup ledger settings now).1, List.mem_filter,
    decide_eq_true_iff, Nat.sub_le_iff_le_add']

theorem pending_cleanup_eq_self
    (recent : ∀ task ∈ ledger.pending, ¬ledger.Outdated settings.staleThreshold task) :
    (ledger.cleanup settings now).pending = ledger.pending := by
  unfold cleanup purge
  split
  · rfl
  · next current known =>
    refine List.filter_eq_self.mpr fun task there => decide_eq_true ?_
    exact UInt64.not_le.mp fun behind => recent task there ⟨current, known, behind⟩

end Ledger

namespace Sequential

/-- The reports in another order, in which they are added up again if a new sum is announced. -/
def enumerate (q : Sequential) (announced : Bool) (order : List RateEntry) : Sequential :=
  { q with ledger :=
      if announced then { q.ledger with rates := order }.publish
        else { q.ledger with rates := order } }

/-- One operation of a worker that may come upon its reports in any order. -/
inductive Performs (q : Sequential) (operation : Operation) : Sequential → Prop where
  | intro {order : List RateEntry} (perm : order.Perm (q.apply operation).2.ledger.rates) :
    q.Performs operation ((q.apply operation).2.enumerate operation.announces order)

/-- What such a worker may have come to from the empty state. -/
inductive Performed (settings : EngineSettings) (verifier : Verifier) :
    List Operation → Sequential → Prop where
  | start : Performed settings verifier [] (start settings verifier)
  | next {history : List Operation} {q q' : Sequential} {operation : Operation}
    (before : Performed settings verifier history q) (step : q.Performs operation q') :
    Performed settings verifier (history ++ [operation]) q'

/-- The report of an entry was recorded, and no operation since took the entry away. -/
def Held (expiry : Nat) (entry : RateEntry) (history : List Operation) : Prop :=
  ∃ early late, history = early ++ .reportOf entry :: late ∧
    ∀ operation ∈ late, operation.Spares expiry entry

variable {q q' : Sequential} {operation : Operation} {settings : EngineSettings}
  {verifier : Verifier} {history : List Operation} {expiry : Nat} {entry : RateEntry}

theorem apply_rates (q : Sequential) (operation : Operation) :
    (∃ now r, operation = .serve now (.report r) ∧
      (q.apply operation).2.ledger = q.ledger.record r now) ∨
      (∃ now, operation = .cleanup now ∧
        (q.apply operation).2.ledger = q.ledger.cleanup q.settings now) ∨
      (operation.announces = false ∧ (q.apply operation).2.ledger.rates = q.ledger.rates ∧
        (q.apply operation).2.ledger.published = q.ledger.published) := by
  cases operation with
  | serve now message =>
    cases message with
    | report r => exact .inl ⟨now, r, rfl, rfl⟩
    | submission s =>
      simp only [apply]
      split <;> exact .inr (.inr ⟨rfl, rfl, rfl⟩)
    | fetch => exact .inr (.inr ⟨rfl, rfl, rfl⟩)
  | cleanup now => exact .inr (.inl ⟨now, rfl, rfl⟩)
  | receive =>
    simp only [apply]
    split <;> exact .inr (.inr ⟨rfl, rfl, rfl⟩)
  | push | readHashrate | abandon => exact .inr (.inr ⟨rfl, rfl, rfl⟩)

theorem published_apply (sum : q.ledger.published = Ledger.total q.ledger.rates) :
    (q.apply operation).2.ledger.published = Ledger.total (q.apply operation).2.ledger.rates := by
  rcases q.apply_rates operation with ⟨now, r, -, ledger⟩ | ⟨now, -, ledger⟩ | ⟨-, rates, published⟩
  · rw [ledger]
    rfl
  · rw [ledger]
    exact (Ledger.rates_cleanup ..).2
  · rw [rates, published, sum]

theorem held_concat :
    Held expiry entry (history ++ [operation]) ↔
      operation = .reportOf entry ∨
      (Held expiry entry history ∧ operation.Spares expiry entry) := by
  constructor
  · rintro ⟨early, late, all, spared⟩
    rcases List.eq_nil_or_concat late with rfl | ⟨late, last, rfl⟩
    · exact .inl (List.head_eq_of_cons_eq (List.append_inj_right' all rfl))
    · rw [List.concat_eq_append] at all spared
      rw [← List.cons_append, ← List.append_assoc] at all
      obtain ⟨rfl, same⟩ := List.append_inj' all rfl
      obtain rfl := List.head_eq_of_cons_eq same
      refine .inr ⟨⟨early, late, rfl, ?_⟩, spared _ (by simp)⟩
      intro operation there
      exact spared operation (List.mem_append_left _ there)
  · rintro (rfl | ⟨⟨early, late, rfl, spared⟩, last⟩)
    · exact ⟨history, [], rfl, nofun⟩
    · refine ⟨early, late ++ [operation], by simp, ?_⟩
      intro other there
      rcases List.mem_append.mp there with there | there
      · exact spared other there
      · exact List.mem_singleton.mp there ▸ last

/-! ## One operation, in any order -/

theorem enumerate_self (sum : q.ledger.published = Ledger.total q.ledger.rates) (announced : Bool) :
    q.enumerate announced q.ledger.rates = q := by
  cases announced with
  | true => simp only [enumerate, if_true, Ledger.publish, ← sum]
  | false => rfl

namespace Performs

/-- The order makes a difference to nothing but the list of the reports. -/
theorem frame (h : q.Performs operation q') :
    q'.settings = q.settings ∧ q'.ledger.rates.Perm (q.apply operation).2.ledger.rates ∧
      q'.ledger.current = (q.apply operation).2.ledger.current ∧
      q'.ledger.pending = (q.apply operation).2.ledger.pending := by
  obtain ⟨perm⟩ := h
  unfold enumerate
  split <;> exact ⟨(q.apply_constant operation).1, perm, rfl, rfl⟩

theorem published_eq (h : q.Performs operation q')
    (sum : q.ledger.published = Ledger.total q.ledger.rates) :
    q'.ledger.published = Ledger.total q'.ledger.rates := by
  obtain ⟨perm⟩ := h
  cases operation.announces with
  | true => rfl
  | false => exact (published_apply sum).trans (Ledger.total_perm perm).symm

theorem nodup_ids (h : q.Performs operation q')
    (distinct : (q.ledger.rates.map RateEntry.id).Nodup) :
    (q'.ledger.rates.map RateEntry.id).Nodup := by
  rw [(h.frame.2.1.map _).nodup_iff]
  have fewer : ∀ p : RateEntry → Bool, ((q.ledger.rates.filter p).map RateEntry.id).Nodup :=
    fun p => distinct.sublist (List.filter_sublist.map _)
  rcases q.apply_rates operation with ⟨now, r, -, ledger⟩ | ⟨now, -, ledger⟩ | ⟨-, rates, -⟩
  · rw [ledger]
    refine List.nodup_cons.mpr ⟨?_, fewer _⟩
    simp
  · rw [ledger, (Ledger.rates_cleanup ..).1]
    exact fewer _
  · rwa [rates]

/-- **An operation adds the entry that it reports, and takes away those that it does not spare.** -/
theorem mem_rates_iff (h : q.Performs operation q') :
    entry ∈ q'.ledger.rates ↔
      operation = .reportOf entry ∨
        (entry ∈ q.ledger.rates ∧ operation.Spares q.settings.hashrateExpiry entry) := by
  rw [h.frame.2.1.mem_iff]
  rcases q.apply_rates operation with ⟨now, r, rfl, ledger⟩
    | ⟨now, rfl, ledger⟩ | ⟨silent, rates, -⟩
  · rw [ledger, Ledger.mem_rates_record, Operation.report_eq_reportOf_iff]
    exact or_congr_right (and_congr_right fun _ => ne_comm)
  · rw [ledger, Ledger.mem_rates_cleanup]
    exact ⟨.inr, fun h => h.resolve_left nofun⟩
  · rw [rates]
    constructor
    · exact fun there => .inr ⟨there, Operation.spares_of_silent silent _ _⟩
    · rintro (rfl | ⟨there, -⟩)
      · cases silent
      · exact there

end Performs

/-- Whatever is done, there is an order in which it is done. -/
theorem exists_performs (q : Sequential) (operation : Operation) : ∃ q', q.Performs operation q' :=
  ⟨_, .intro (List.Perm.refl _)⟩

/-! ## Histories -/

namespace Performed

theorem settings_eq (h : Performed settings verifier history q) : q.settings = settings := by
  induction h with
  | start => rfl
  | next _ step ih => exact step.frame.1.trans ih

theorem published_eq (h : Performed settings verifier history q) :
    q.ledger.published = Ledger.total q.ledger.rates := by
  induction h with
  | start => rfl
  | next _ step ih => exact step.published_eq ih

theorem nodup_ids (h : Performed settings verifier history q) :
    (q.ledger.rates.map RateEntry.id).Nodup := by
  induction h with
  | start => exact List.nodup_nil
  | next _ step ih => exact step.nodup_ids ih

/-- **What is held is told from the history**, whatever the times in it. -/
theorem mem_rates_iff (h : Performed settings verifier history q) :
    entry ∈ q.ledger.rates ↔ Held settings.hashrateExpiry entry history := by
  induction h with
  | start => simp [Held, Sequential.start]
  | next before step ih => rw [step.mem_rates_iff, held_concat, ih, before.settings_eq]

end Performed

/-! ## Cleanup -/

namespace Performs

variable {now earlier : Nat} {q'' : Sequential}

/-- A cleanup takes reports away and adds none, so the published rate does not rise. -/
theorem published_le_of_cleanup (h : q.Performs (.cleanup now) q')
    (sum : q.ledger.published = Ledger.total q.ledger.rates) :
    q'.ledger.published ≤ q.ledger.published := by
  have left : q'.ledger.rates.Perm
      (q.ledger.rates.filter fun entry => now - entry.lastSeen ≤ q.settings.hashrateExpiry) :=
    (Ledger.rates_cleanup ..).1 ▸ h.frame.2.1
  rw [h.published_eq sum, sum, Ledger.total_perm left]
  exact Ledger.total_le_of_sublist List.filter_sublist

/-- **A second cleanup at the same instant or an earlier one changes nothing.** -/
theorem cleanup_again (h : q.Performs (.cleanup now) q') (back : earlier ≤ now)
    (again : q'.Performs (.cleanup earlier) q'') :
    q''.ledger.rates.Perm q'.ledger.rates ∧ q''.ledger.pending = q'.ledger.pending := by
  obtain ⟨settings, perm, current, pending⟩ := h.frame
  have cleaned : (q.apply (.cleanup now)).2.ledger = q.ledger.cleanup q.settings now := rfl
  constructor
  · -- What the first one left is recent enough for the second.
    have all : (q'.ledger.cleanup q'.settings earlier).rates = q'.ledger.rates := by
      rw [(Ledger.rates_cleanup ..).1]
      refine List.filter_eq_self.mpr fun entry there => decide_eq_true ?_
      have recent := (Ledger.mem_rates_cleanup.mp (perm.mem_iff.mp there)).2
      rw [settings]
      omega
    exact all ▸ again.frame.2.1
  · rw [again.frame.2.2.2]
    refine Ledger.pending_cleanup_eq_self fun task there => ?_
    rw [pending, cleaned] at there
    have known : q'.ledger.current = q.ledger.current := current.trans Ledger.current_cleanup
    rw [settings, Ledger.Outdated, known]
    exact (Ledger.mem_pending_cleanup.mp there).2

end Performs

theorem performed_after (settings : EngineSettings) (verifier : Verifier)
    (history : List Operation) :
    Performed settings verifier history ((start settings verifier).after history) := by
  induction history using List.reverseRecOn with
  | nil => exact .start
  | append_singleton history operation ih =>
    rw [after_concat]
    refine ih.next ?_
    have step : ((start settings verifier).after history).Performs operation _ :=
      .intro (List.Perm.refl _)
    rwa [enumerate_self (published_apply ih.published_eq)] at step

/-- **The published hash rate is the exact sum of the reports, cut off at the largest word**, after
every history of operations, whatever the times in it and in whatever orders the worker comes upon
its reports. Each id has one report, the last one recorded, unless a cleanup has taken it away
since. A cleanup takes away exactly the reports that were not renewed for longer than the expiry,
does not raise the published rate, and leaves nothing to do for another one at the same instant or
an earlier one. -/
theorem published_rate_exact (settings : EngineSettings)
    (verifier : Verifier) (history : List Operation) :
    Performed settings verifier history ((start settings verifier).after history) ∧
      ∀ q, Performed settings verifier history q →
        (q.ledger.published.toNat = min (2 ^ 64 - 1) (q.ledger.rates.map (·.rate.toNat)).sum ∧
          ∀ order, order.Perm q.ledger.rates → Ledger.total order = q.ledger.published) ∧
        ((q.ledger.rates.map RateEntry.id).Nodup ∧
          ∀ entry, entry ∈ q.ledger.rates ↔ Held settings.hashrateExpiry entry history) ∧
        ∀ now q', q.Performs (.cleanup now) q' →
          (∀ entry, entry ∈ q'.ledger.rates ↔
            entry ∈ q.ledger.rates ∧ ¬entry.lastSeen + settings.hashrateExpiry < now) ∧
          q'.ledger.published ≤ q.ledger.published ∧
          ∀ earlier q'', earlier ≤ now → q'.Performs (.cleanup earlier) q'' →
            q''.ledger.rates.Perm q'.ledger.rates ∧ q''.ledger.pending = q'.ledger.pending := by
  refine ⟨performed_after settings verifier history, fun q performed => ?_⟩
  have sum := performed.published_eq
  refine ⟨⟨?_, ?_⟩, ⟨performed.nodup_ids, fun entry => performed.mem_rates_iff⟩,
    fun now q' cleaned => ⟨?_, ?_, ?_⟩⟩
  · rw [sum]
    exact Ledger.toNat_total _
  · intro order perm
    rw [sum, Ledger.total_perm perm]
  · intro entry
    rw [cleaned.mem_rates_iff, performed.settings_eq, not_lt]
    exact ⟨fun h => h.resolve_left nofun, .inr⟩
  · exact cleaned.published_le_of_cleanup sum
  · exact fun earlier q'' back again => cleaned.cleanup_again back again

/-- Two miners report, the second one twice and at times before the first, and the sum does not fit.
A cleanup at a time in between, which comes upon the reports the other way round, takes the second
report away and not the one from the future, and an earlier cleanup does nothing more. -/
theorem published_rate_exact_backwards :
    let settings : EngineSettings := { hashrateExpiry := 4 }
    let first : RateEntry := ⟨Hash.zero, Word.largest, 10⟩
    let second : RateEntry := ⟨FixedBytes.filled 32 1, 7, 4⟩
    ∃ q q' q'', Performed settings .acceptAll
        [.reportOf first, .reportOf ⟨FixedBytes.filled 32 1, 5, 3⟩, .reportOf second] q ∧
      q.ledger.rates = [first, second] ∧ q.ledger.published.toNat = 2 ^ 64 - 1 ∧
      q.Performs (.cleanup 9) q' ∧ first ∈ q'.ledger.rates ∧ second ∉ q'.ledger.rates ∧
      q'.ledger.published ≤ q.ledger.published ∧
      q'.Performs (.cleanup 2) q'' ∧ q''.ledger.rates.Perm q'.ledger.rates ∧
      q''.ledger.pending = q'.ledger.pending := by
  intro settings first second
  have listed : (((start settings .acceptAll).after [.reportOf first,
      .reportOf ⟨FixedBytes.filled 32 1, 5, 3⟩]).apply
      (.reportOf second)).2.ledger.rates = [second, first] := by decide +kernel
  have performed :=
    (performed_after settings .acceptAll _).next (.intro (listed ▸ List.Perm.swap second first []))
  obtain ⟨q', cleaned⟩ := exists_performs _ (.cleanup 9)
  obtain ⟨q'', again⟩ := exists_performs q' (.cleanup 2)
  obtain ⟨⟨published, -⟩, -, cleanup⟩ := (published_rate_exact settings .acceptAll _).2 _ performed
  obtain ⟨left, lower, twice⟩ := cleanup 9 q' cleaned
  obtain ⟨reports, tasks⟩ := twice 2 q'' (by decide) again
  refine ⟨_, q', q'', performed, rfl, published.trans ?_, cleaned,
    (left first).mpr ?_, mt (left second).mp ?_, lower, again, reports, tasks⟩
  · decide
  · decide +kernel
  · decide +kernel

end Sequential

end MinerGateway
