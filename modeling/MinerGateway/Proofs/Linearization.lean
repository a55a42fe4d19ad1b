import Mathlib.Data.List.TakeWhile
import MinerGateway.Proofs.OwnReply
import MinerGateway.Proofs.Sequential

/-!
One sequential order of all that a sealer was asked to do.

`operations log` collects what took effect before the loop ended: of the pushes only those that were
handled, and everything else that was answered. The order of the log, with the pushes that were
never handled left out, is an order for the sequential object (`exists_order`). It keeps every
precedence in time because an operation takes effect between the making of its call and its return
(`bounds_entry`), a push at once; that a push is handled later does not show, because the worker
looks for tasks before anything else.

The steps: along a log each event is at most one operation (`simulates`); the log can be cut at the
first push that was never handled, behind which the worker has done nothing (`cut`); and behind the
cut the pushes may be left out, since only readings and receipts are left there.
-/

namespace MinerGateway

def Event.ends : Event → Bool
  | .ended _ => true
  | _ => false

/-- What happened before the loop ended. -/
def past (log : List Event) : List Event := log.takeWhile (!·.ends)

def pushedTasks (log : List Event) : List Task :=
  log.filterMap fun | .pushed task => some task | _ => none

def handledTasks (log : List Event) : List Task :=
  log.filterMap fun | .handled task => some task | _ => none

/-- The operations among the first events of a log. -/
def entriesOf (log front : List Event) : List Entry :=
  front.zipIdx.filterMap fun (e, p) => e.operation? log p

/-- The operations that took effect before the loop ended. The pushes among them are as many as were
handled, the earliest ones. -/
def operations (log : List Event) : List Entry :=
  (entriesOf log (past log)).filter (!·.isPush) ++
    ((entriesOf log (past log)).filter (·.isPush)).take (handledTasks (past log)).length

theorem entriesOf_concat (log front : List Event) (e : Event) :
    entriesOf log (front ++ [e])
      = entriesOf log front ++ (e.operation? log front.length).toList := by
  unfold entriesOf
  rw [List.zipIdx_append, List.filterMap_append]
  congr 1
  rw [Nat.zero_add]
  cases h : e.operation? log front.length <;> simp [h]

theorem pushedTasks_append (log more : List Event) :
    pushedTasks (log ++ more) = pushedTasks log ++ pushedTasks more :=
  List.filterMap_append ..

theorem handledTasks_append (log more : List Event) :
    handledTasks (log ++ more) = handledTasks log ++ handledTasks more :=
  List.filterMap_append ..

/-! ## The order of the log -/

/-- What an event means for the pushes that were not handled so far: one comes in, one is handled,
the worker does something and there are none, or nothing. -/
theorem Sealer.Takes.waiting {s s' : Sealer} {e : Event} (h : s.Takes e s') (going : e.ends = false)
    (log : List Event) (p : Nat) :
    (∃ a, e.operation? log p = some a ∧ a.isPush = true ∧ a.needsWorker = false ∧
        s'.tasks.length = s.tasks.length + 1 ∧ handledTasks [e] = []) ∨
      (e.operation? log p = none ∧ s.tasks.length = s'.tasks.length + 1 ∧
        (handledTasks [e]).length = 1) ∨
      (∃ a, e.operation? log p = some a ∧ a.isPush = false ∧ s.tasks = [] ∧ s'.tasks = [] ∧
        handledTasks [e] = []) ∨
      ((∀ a, e.operation? log p = some a → a.isPush = false ∧ a.needsWorker = false) ∧
        s'.tasks = s.tasks ∧ handledTasks [e] = []) := by
  cases h with
  | pushed => exact .inl ⟨_, rfl, rfl, rfl, by simp, rfl⟩
  | handled _ queue => exact .inr (.inl ⟨rfl, by simp [queue], rfl⟩)
  | served _ queue =>
    exact .inr (.inr (.inl ⟨_, rfl, rfl, queue, (s.serve_frame _ _).2.1.trans queue, rfl⟩))
  | cleaned _ queue => exact .inr (.inr (.inl ⟨_, rfl, rfl, queue, queue, rfl⟩))
  | ended => cases going
  | received | abandoned | read | told =>
    refine .inr (.inr (.inr ⟨?_, rfl, rfl⟩))
    intro a ha
    obtain rfl := Option.some.inj ha
    exact ⟨rfl, rfl⟩
  | joined | due =>
    refine .inr (.inr (.inr ⟨?_, rfl, rfl⟩))
    intro a ha
    cases ha
  | apart h =>
    refine .inr (.inr (.inr ⟨?_, rfl, ?_⟩))
    · intro a ha
      rw [Event.operation?_of_apart h] at ha
      cases ha
    · cases e with
      | handled => cases h
      | _ => rfl

namespace Sealer.Passes

variable {s s' : Sealer} {front : List Event}

/-- In the order of the log, with all pushes, the sequential object does what the sealer did. -/
theorem simulates (h : s.Passes front s') (going : ∀ e ∈ front, e.ends = false) (log : List Event) :
    s.sequential.Legal (entriesOf log front) ∧
      s.sequential.replay (entriesOf log front) = s'.sequential := by
  induction h with
  | refl => exact ⟨trivial, rfl⟩
  | @next front s' e s'' _ last ih =>
    have before : ∀ e ∈ front, e.ends = false := by
      intro e he
      exact going e (List.mem_append_left _ he)
    obtain ⟨legal, same⟩ := ih before
    have runs : ∀ lost, e ≠ .ended lost := by
      rintro lost rfl
      have stops := going _ (List.mem_append_right _ List.mem_cons_self)
      cases stops
    obtain ⟨legal', same'⟩ := last.simulates runs log front.length
    rw [entriesOf_concat, Sequential.legal_append, Sequential.replay_append, same]
    exact ⟨⟨legal, legal'⟩, same'⟩

/-- The operations in the order of the log, cut where the first push stands that was not handled so
far: from there on the worker has done nothing. -/
theorem cut (h : s.Passes front s') (start : s.tasks = []) (going : ∀ e ∈ front, e.ends = false)
    (log : List Event) :
    ∃ before after, entriesOf log front = before ++ after ∧
      (∀ a ∈ after, a.needsWorker = false) ∧
      (after.filter (·.isPush)).length = s'.tasks.length ∧
      (before.filter (·.isPush)).length = (handledTasks front).length := by
  -- The invariant: behind the cut lie as many pushes as there are queued tasks.
  induction h with
  | refl => exact ⟨[], [], rfl, by simp, by simp [start], rfl⟩
  | @next front s' e s'' _ last ih =>
    have earlier : ∀ e ∈ front, e.ends = false := by
      intro e he
      exact going e (List.mem_append_left _ he)
    obtain ⟨before, after, all, light, waiting, done⟩ := ih earlier
    have runs := going e (List.mem_append_right _ List.mem_cons_self)
    rw [entriesOf_concat, all, handledTasks_append, List.length_append, ← done]
    rcases last.waiting runs log front.length with ⟨a, entry, push, idle, tasks, none⟩ |
      ⟨entry, tasks, one⟩ | ⟨a, entry, push, tasks, tasks', none⟩ | ⟨passive, tasks, none⟩
    · -- A push comes in behind the cut.
      rw [entry, none]
      refine ⟨before, after ++ [a], List.append_assoc .., ?_, ?_, rfl⟩
      · intro b hb
        rcases List.mem_append.mp hb with hb | hb
        · exact light b hb
        · rw [List.mem_singleton.mp hb]
          exact idle
      · rw [List.filter_append, List.length_append, waiting, tasks, List.filter_cons_of_pos push]
        rfl
    · -- The first push behind the cut is handled, and the cut moves behind it.
      obtain ⟨a, rest, first⟩ : ∃ a rest, after.filter (·.isPush) = a :: rest := by
        cases hf : after.filter (·.isPush) with
        | nil =>
          rw [hf, List.length_nil] at waiting
          omega
        | cons a rest => exact ⟨a, rest, rfl⟩
      obtain ⟨passive, later, rfl, other, push, left⟩ := List.filter_eq_cons_iff.mp first
      have nothing : passive.filter (·.isPush) = [] := List.filter_eq_nil_iff.mpr other
      rw [entry, one]
      refine ⟨before ++ (passive ++ [a]), later, by simp, ?_, ?_, ?_⟩
      · intro b hb
        exact light b (List.mem_append_right _ (List.mem_cons_of_mem _ hb))
      · rw [first, List.length_cons] at waiting
        rw [left]
        omega
      · rw [List.filter_append, List.filter_append, nothing, List.filter_cons_of_pos push]
        simp
    · -- The worker does something, so there is no push behind the cut.
      rw [tasks, List.length_nil] at waiting
      have nothing := List.eq_nil_of_length_eq_zero waiting
      rw [entry, none]
      refine ⟨before ++ after ++ [a], [], by simp, by simp, ?_, ?_⟩
      · rw [tasks']
        rfl
      · rw [List.filter_append, List.filter_append, nothing,
          List.filter_cons_of_neg (by simp [push])]
        simp
    · -- Nothing that the worker does, and no push.
      rw [none]
      refine ⟨before, after ++ (e.operation? log front.length).toList, List.append_assoc ..,
        ?_, ?_, rfl⟩
      · intro b hb
        rcases List.mem_append.mp hb with hb | hb
        · exact light b hb
        · exact (passive b (Option.mem_toList.mp hb)).2
      · have nothing : (e.operation? log front.length).toList.filter (·.isPush) = [] := by
          apply List.filter_eq_nil_iff.mpr
          intro b hb
          rw [(passive b (Option.mem_toList.mp hb)).1]
          exact Bool.false_ne_true
        rw [List.filter_append, nothing, List.append_nil, waiting, tasks]

end Sealer.Passes

/-! ## Positions -/

theorem makes_of_mem_history {i : Nat} {errand : Errand} {front : List Event}
    (h : .made errand ∈ history i front) : ∃ e ∈ front, e.makes i := by
  obtain ⟨e, he, h⟩ := List.mem_flatMap.mp h
  refine ⟨e, he, ?_⟩
  cases e with
  | made | posted | entered | taken | served | resolved | finished | aborted =>
    simp only [Event.happenings] at h
    split at h <;> simp_all [Event.makes]
  | ended lost | dropped lost =>
    obtain ⟨letter, -, h⟩ := List.mem_map.mp h
    cases h
  | _ => cases h

theorem mem_history_of_returns {i : Nat} {front : List Event} {e : Event} (he : e ∈ front)
    (h : e.returns i = true) : ∃ answer, .finished answer ∈ history i front := by
  cases e with
  | finished call errand answer =>
    refine ⟨answer, List.mem_flatMap.mpr ⟨_, he, ?_⟩⟩
    have same : call = i := by simpa [Event.returns] using h
    simp [Event.happenings, same]
  | _ => cases h

theorem findIdx_lt {α : Type} {p : α → Bool} {front : List α} (back : List α)
    (h : ∃ x ∈ front, p x) : (front ++ back).findIdx p < front.length := by
  have found := List.findIdx_lt_length_of_exists h
  rw [List.findIdx_append, if_pos found]
  exact found

theorem le_findIdx {α : Type} {p : α → Bool} {front : List α} (back : List α)
    (h : ∀ x ∈ front, p x = false) : front.length ≤ (front ++ back).findIdx p := by
  rw [List.findIdx_append, List.findIdx_eq_length_of_false h, if_neg (Nat.lt_irrefl _)]
  exact Nat.le_add_left _ _

theorem split_of_getElem? {α : Type} {l : List α} {p : Nat} {x : α} (h : l[p]? = some x) :
    ∃ front back, l = front ++ x :: back ∧ front.length = p := by
  obtain ⟨less, rfl⟩ := List.getElem?_eq_some_iff.mp h
  refine ⟨l.take p, l.drop (p + 1), ?_, List.length_take_of_le (Nat.le_of_lt less)⟩
  rw [List.getElem_cons_drop, List.take_append_drop]

theorem Life.unfinished {errand : Errand} {history : List Happening} {stage : Stage} {place : Place}
    {message : Message} (life : Life errand history stage place)
    (letter : place.message? = some message) (answer : Answer) : .finished answer ∉ history := by
  induction life with
  | made | advance | produce | reply | late => cases letter
  | posted => simp
  | @enter past _ life =>
    have none : answers past = [] := life.answers_eq
    intro h
    rcases List.mem_append.mp h with h | h
    · have told : answer ∈ answers past := List.mem_filterMap.mpr ⟨_, h, rfl⟩
      rw [none] at told
      cases told
    · simp at h
  | take _ ih =>
    intro h
    rcases List.mem_append.mp h with h | h
    · exact ih letter h
    · simp at h
  | abort _ _ ih =>
    intro h
    rcases List.mem_append.mp h with h | h
    · exact ih letter h
    · simp at h

namespace World

variable {w w' : World} {front : List Event}

theorem queued_of_served {now : Nat} {letter : Letter} {before after : Sealer} {reply : Reply}
    (step : Step w (.served now letter before after reply) w') : letter ∈ w.queued := by
  cases step with
  | act step => cases step
  | move step =>
    generalize he : Event.served now letter before after reply = e at step
    cases step with
    | @advance i call stage => cases stage <;> cases he
    | serve working _ _ next =>
      obtain ⟨-, rfl, -⟩ := Event.served.inj he
      obtain ⟨kind, taken⟩ := Intake.next_eq_some next
      rw [queued_eq working.intake]
      exact (Intake.letters_take_perm taken).mem_iff.mpr List.mem_cons_self
    | _ => cases he

theorem view_of_finished {i : Nat} {errand : Errand} {answer : Answer}
    (step : Step w (.finished i errand answer) w') :
    (∃ stage, w.view i = some (errand, stage)) ∧ w'.view i = some (errand, .finished answer) := by
  cases step with
  | act step => cases step
  | move step =>
    generalize he : Event.finished i errand answer = e at step
    cases step with
    | @advance j call stage found =>
      cases stage with
      | finished =>
        obtain ⟨rfl, rfl, rfl⟩ := Event.finished.inj he
        refine ⟨⟨call.stage, view_eq_some found⟩, ?_⟩
        rw [view_setStage, if_pos rfl, view_eq_some found]
        rfl
      | _ => cases he
    | _ => cases he

theorem Tracked.makes (tracked : w.Tracked front) {i : Nat} {errand : Errand} {stage : Stage}
    (h : w.view i = some (errand, stage)) : ∃ e ∈ front, e.makes i := by
  obtain ⟨place, -, life⟩ := tracked.life h
  exact makes_of_mem_history (List.mem_of_mem_head? life.head?_eq)

theorem Tracked.unreturned (tracked : w.Tracked front) {letter : Letter} (h : letter ∈ w.queued) :
    (∃ e ∈ front, e.makes letter.sender) ∧ ∀ e ∈ front, e.returns letter.sender = false := by
  obtain ⟨place, lies, follows⟩ := tracked.calls letter.sender
  have here : Lies w.queued w.held letter.sender (.queued letter.message) := h
  obtain rfl := lies.unique tracked.senders here
  cases hv : w.view letter.sender with
  | none =>
    rw [hv] at follows
    cases follows.2
  | some v =>
    refine ⟨tracked.makes hv, ?_⟩
    intro e he
    apply Bool.eq_false_iff.mpr
    intro returned
    rw [hv] at follows
    obtain ⟨answer, told⟩ := mem_history_of_returns he returned
    exact Life.unfinished follows rfl answer told

end World

section

variable {settings : EngineSettings} {verifier : Verifier} {w : World} {front back : List Event}
  {e : Event} {a : Entry}

/-- **An operation takes effect between the making of its call and its return.** -/
theorem bounds_entry (run : (World.started settings verifier).Run (front ++ e :: back) w)
    (h : e.operation? (front ++ e :: back) front.length = some a) :
    a.made ≤ front.length ∧ front.length ≤ a.returned := by
  obtain ⟨w₀, w₁, before, step, -⟩ := run.at_event
  have tracked := before.tracked (World.tracked_started settings verifier)
  unfold Event.operation? at h
  split at h
  · cases h
    exact ⟨Nat.le_refl _, Nat.le_refl _⟩
  · -- The letter was in its channel, so its call was made before and returns later.
    cases h
    obtain ⟨made, running⟩ := tracked.unreturned (World.queued_of_served step)
    exact ⟨Nat.le_of_lt (findIdx_lt _ made), le_findIdx _ running⟩
  · cases h
    obtain ⟨⟨stage, hv⟩, -⟩ := World.view_of_finished step
    exact ⟨Nat.le_of_lt (findIdx_lt _ (tracked.makes hv)), Nat.le_refl _⟩
  all_goals
    cases h
    try exact ⟨Nat.le_refl _, Nat.le_refl _⟩

theorem pairwise_zipIdx {α : Type} (l : List α) : l.zipIdx.Pairwise fun x y => x.2 < y.2 := by
  have indices : (l.zipIdx.map Prod.snd).Pairwise (· < ·) := by
    rw [List.zipIdx_map_snd]
    exact List.pairwise_lt_range'
  exact List.pairwise_map.mp indices

/-- In the order of the log, nothing comes before what had returned earlier. -/
theorem pairwise_entriesOf (run : (World.started settings verifier).Run (front ++ back) w) :
    (entriesOf (front ++ back) front).Pairwise fun a b => ¬b.Precedes a := by
  have bounds : ∀ x ∈ front.zipIdx, ∀ a ∈ x.1.operation? (front ++ back) x.2,
      a.made ≤ x.2 ∧ x.2 ≤ a.returned := by
    rintro ⟨e, p⟩ hx a ha
    obtain ⟨earlier, later, rfl, rfl⟩ : ∃ earlier later, front = earlier ++ e :: later ∧
        earlier.length = p := split_of_getElem? (List.mem_zipIdx_iff_getElem?.mp hx)
    rw [List.append_assoc, List.cons_append] at run ha
    exact bounds_entry run ha
  apply List.pairwise_filterMap.mpr
  apply (pairwise_zipIdx front).imp_of_mem
  intro x y hx hy less a ha b hb
  have first := bounds _ hx a ha
  have second := bounds _ hy b hb
  unfold Entry.Precedes
  omega

theorem past_append (log : List Event) :
    ∃ rest, log = past log ++ rest ∧ ∀ e ∈ past log, e.ends = false := by
  refine ⟨log.dropWhile (!·.ends), List.takeWhile_append_dropWhile.symm, ?_⟩
  intro e he
  simpa using List.mem_takeWhile_imp he

/-- **There is an order for the sequential object** that keeps every precedence in time. -/
theorem exists_order {log : List Event} (run : (World.started settings verifier).Run log w) :
    ∃ order, order.Perm (operations log) ∧ (Sequential.start settings verifier).Legal order ∧
      order.Pairwise fun a b => ¬b.Precedes a := by
  obtain ⟨rest, cutLog, going⟩ := past_append log
  have whole : (World.started settings verifier).Run (past log ++ rest) w := cutLog ▸ run
  obtain ⟨w', earlier, -⟩ := whole.split rfl
  obtain ⟨s, -, passes⟩ := earlier.passes_start
  obtain ⟨before, after, all, light, -, done⟩ := passes.cut rfl going log
  obtain ⟨legal, -⟩ := passes.simulates going log
  have precedence := pairwise_entriesOf whole
  rw [← cutLog] at precedence
  rw [Sealer.sequential_start] at legal
  rw [all] at legal precedence
  refine ⟨before ++ after.filter (!·.isPush), ?_, ?_, ?_⟩
  · -- The pushes before the cut are those that were handled.
    have pushes : ((entriesOf log (past log)).filter (·.isPush)).take
        (handledTasks (past log)).length = before.filter (·.isPush) := by
      rw [all, List.filter_append, ← done, List.take_left]
    have others : (entriesOf log (past log)).filter (!·.isPush)
        = before.filter (!·.isPush) ++ after.filter (!·.isPush) := by
      rw [all, List.filter_append]
    rw [operations, pushes, others]
    refine ((List.filter_append_perm (·.isPush) before).symm.append_right _).trans ?_
    rw [List.append_assoc]
    exact List.perm_append_comm
  · obtain ⟨first, second⟩ := Sequential.legal_append.mp legal
    exact Sequential.legal_append.mpr ⟨first, Sequential.legal_filter ⟨rfl, rfl⟩ light second⟩
  · exact precedence.sublist (List.filter_sublist.append_left _)

end

end MinerGateway
