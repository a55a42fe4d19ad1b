import MinerGateway.Proofs.OwnReply

/-!
The channels in front of a worker's part that is played by hand.

`Intake.Changes` lists, event by event, how the channels change; `changes_step` says that a step
changes them so. Along a run they are `Accounted` for (`accounted_run`): no channel overflows, each
letter lies in the channel of its kind, and what was taken out of a channel, what is left in it and
what was thrown away with it are together what came in, in this order.

Correspondence (channel ↔ log):
  the letters that went in                    ↔ `arrivals`
  those that were taken out by hand           ↔ `taken`
  those that were thrown away with the inbox  ↔ `thrown`
-/

namespace MinerGateway

/-- The letters of one kind. -/
def ofKind (kind : Kind) (letters : List Letter) : List Letter := letters.filter (·.kind = kind)

@[simp] theorem ofKind_nil (kind : Kind) : ofKind kind [] = [] := rfl

@[simp] theorem ofKind_append (kind : Kind) (front back : List Letter) :
    ofKind kind (front ++ back) = ofKind kind front ++ ofKind kind back :=
  List.filter_append ..

theorem ofKind_filter (kind : Kind) (letters : List Letter) (p : Letter → Bool) :
    ofKind kind (letters.filter p) = (ofKind kind letters).filter p := by
  rw [ofKind, ofKind, List.filter_filter, List.filter_filter]
  simp only [Bool.and_comm]

theorem mem_ofKind {kind : Kind} {letters : List Letter} {letter : Letter} :
    letter ∈ ofKind kind letters ↔ letter ∈ letters ∧ letter.kind = kind := by
  simp [ofKind]

/-- The letters that go into their channels at an event. -/
def Event.arrivals : Event → List Letter
  | .entered letter | .posted letter => [letter]
  | _ => []

def arrivals (log : List Event) : List Letter := log.flatMap Event.arrivals

@[simp] theorem arrivals_append (log more : List Event) :
    arrivals (log ++ more) = arrivals log ++ arrivals more :=
  List.flatMap_append ..

@[simp] theorem arrivals_singleton (e : Event) : arrivals [e] = e.arrivals := List.append_nil _

/-- The letters that are thrown away with their channels. -/
def Event.thrown : Event → List Letter
  | .dropped lost => lost
  | _ => []

def thrown (log : List Event) : List Letter := log.flatMap Event.thrown

@[simp] theorem thrown_append (log more : List Event) :
    thrown (log ++ more) = thrown log ++ thrown more :=
  List.flatMap_append ..

@[simp] theorem thrown_singleton (e : Event) : thrown [e] = e.thrown := List.append_nil _

/-- How an event changes the channels in front of a worker's part that is played by hand. -/
inductive Intake.Changes (intake : Intake) : Event → Intake → Prop where
  | put {e letter} (attended : intake.attended = true) (room : intake.hasRoom letter.kind 0 = true)
      (h : e = .entered letter ∨ e = .posted letter) : intake.Changes e (intake.put letter)
  | take {kind letter rest} (h : intake.take kind = some (letter, rest)) :
    intake.Changes (.taken letter) rest
  | signal : intake.Changes .signalled intake.signal
  | abandon : intake.Changes (.dropped intake.letters) intake.abandon
  | apart {e} (unarrived : e.arrivals = []) (untaken : World.taken [e]
      = []) (unthrown : e.thrown = []) :
    intake.Changes e intake

namespace Intake

variable {intake intake' : Intake} {e : Event}

theorem queue_of_take {kind : Kind} {letter : Letter} {rest : Intake}
    (h : intake.take kind = some (letter, rest)) (other : Kind) :
    intake.queue other = (if other = kind then [letter] else []) ++ rest.queue other := by
  unfold take at h
  split at h
  · cases h
  next first others queue =>
  obtain ⟨rfl, rfl⟩ := Prod.mk.inj (Option.some.inj h)
  rw [queue_setQueue]
  split
  · next same =>
    rw [same, queue]
    rfl
  · rfl

theorem queue_put (intake : Intake) (letter : Letter) (kind : Kind) :
    (intake.put letter).queue kind
      = intake.queue kind ++ if kind = letter.kind then [letter] else [] := by
  rw [put, queue_setQueue]
  split
  · next same => rw [same]
  · exact (List.append_nil _).symm

theorem queue_abandon (intake : Intake) (kind : Kind) : intake.abandon.queue kind = [] := by
  cases kind <;> rfl

theorem queue_signal (intake : Intake) (kind : Kind) :
    intake.signal.queue kind = intake.queue kind := by
  cases kind <;> rfl

theorem mem_letters {letter : Letter} :
    letter ∈ intake.letters ↔ ∃ kind, letter ∈ intake.queue kind := by
  rw [letters, List.mem_append, List.mem_append]
  constructor
  · rintro ((h | h) | h)
    · exact ⟨.fetch, h⟩
    · exact ⟨.submission, h⟩
    · exact ⟨.report, h⟩
  · rintro ⟨kind, h⟩
    cases kind with
    | fetch => exact .inl (.inl h)
    | submission => exact .inl (.inr h)
    | report => exact .inr h

/-- Each letter lies in the channel of its kind, and no channel overflows. -/
structure Orderly (intake : Intake) : Prop where
  filed : ∀ kind, ∀ letter ∈ intake.queue kind, letter.kind = kind
  bounded : ∀ kind, (intake.queue kind).length ≤ intake.capacity

theorem Orderly.of_queue (h : intake.Orderly) (capacity : intake'.capacity = intake.capacity)
    (queue : ∀ kind, (intake'.queue kind).Sublist (intake.queue kind)) : intake'.Orderly := by
  constructor
  · intro kind letter there
    exact h.filed kind letter ((queue kind).mem there)
  · intro kind
    rw [capacity]
    exact Nat.le_trans (queue kind).length_le (h.bounded kind)

theorem Orderly.ofKind_letters (h : intake.Orderly) (kind : Kind) :
    ofKind kind intake.letters = intake.queue kind := by
  have own : ∀ other,
      ofKind kind (intake.queue other) = if other = kind then intake.queue kind else [] := by
    intro other
    split
    · next same =>
      rw [← same]
      apply List.filter_eq_self.mpr
      intro letter there
      exact decide_eq_true (h.filed other letter there)
    · next apart =>
      apply List.filter_eq_nil_iff.mpr
      intro letter there
      rw [h.filed other letter there]
      simpa using apart
  have fetches := own .fetch
  have submissions := own .submission
  have reports := own .report
  simp only [queue] at fetches submissions reports
  rw [letters, ofKind_append, ofKind_append, fetches, submissions, reports]
  cases kind <;> simp [queue]

namespace Changes

theorem capacity (h : intake.Changes e intake') : intake'.capacity = intake.capacity := by
  cases h with
  | put => exact capacity_put
  | take h => exact (take_frame h).1
  | signal | abandon | apart => rfl

theorem attended (h : intake.Changes e intake') (there : intake'.attended = true) :
    intake.attended = true := by
  cases h with
  | put attended => exact attended
  | take h => exact (take_frame h).2.2 ▸ there
  | abandon => cases there
  | signal | apart => exact there

theorem orderly (h : intake.Changes e intake') (orderly : intake.Orderly) : intake'.Orderly := by
  cases h with
  | @put _ letter _ room h =>
    have room : (intake.queue letter.kind).length < intake.capacity := by
      simpa [hasRoom] using room
    constructor
    · intro kind other there
      rw [queue_put] at there
      rcases List.mem_append.mp there with old | new
      · exact orderly.filed kind other old
      · split at new
        · next same =>
          rw [List.mem_singleton.mp new, same]
        · cases new
    · intro kind
      have before := orderly.bounded kind
      rw [queue_put, capacity_put, List.length_append]
      split
      · next same =>
        rw [same, List.length_singleton]
        omega
      · exact before
  | @take kind letter rest h =>
    refine orderly.of_queue (take_frame h).1 ?_
    intro other
    rw [queue_of_take h other]
    exact List.sublist_append_right ..
  | signal => exact orderly.of_queue rfl fun kind => by rw [queue_signal]
  | abandon =>
    refine orderly.of_queue rfl fun kind => ?_
    rw [queue_abandon]
    exact List.nil_sublist _
  | apart => exact orderly

theorem unthrown (h : intake.Changes e intake') (there : intake'.attended = true) :
    e.thrown = [] := by
  cases h with
  | put _ _ h => rcases h with rfl | rfl <;> rfl
  | take | signal => rfl
  | abandon => cases there
  | apart _ _ unthrown => exact unthrown

theorem empty (h : intake.Changes e intake') (gone : intake'.attended = false)
    (before : intake.attended = false → ∀ kind, intake.queue kind = []) (kind : Kind) :
    intake'.queue kind = [] := by
  cases h with
  | put attended =>
    rw [Intake.put, attended_setQueue, attended] at gone
    cases gone
  | take h =>
    have there := queue_of_take h kind
    rw [before ((take_frame h).2.2 ▸ gone) kind] at there
    exact (List.append_eq_nil_iff.mp there.symm).2
  | signal =>
    rw [queue_signal]
    exact before gone kind
  | abandon => exact queue_abandon ..
  | apart => exact before gone kind

theorem unarrived (h : intake.Changes e intake') (gone : intake.attended = false) :
    e.arrivals = [] := by
  cases h with
  | put attended =>
    rw [attended] at gone
    cases gone
  | take | signal | abandon => rfl
  | apart unarrived => exact unarrived

/-- What is taken out, what is left and what is thrown away are what was there before and what comes
in. -/
theorem fifo (h : intake.Changes e intake') (orderly : intake.Orderly) (kind : Kind) :
    ofKind kind (World.taken [e]) ++ intake'.queue kind ++ ofKind kind e.thrown
      = intake.queue kind ++ ofKind kind e.arrivals := by
  cases h with
  | @put _ letter _ _ h =>
    have arrived : e.arrivals = [letter] := by rcases h with rfl | rfl <;> rfl
    have untaken : World.taken [e] = [] := by rcases h with rfl | rfl <;> rfl
    have unthrown : e.thrown = [] := by rcases h with rfl | rfl <;> rfl
    rw [arrived, untaken, unthrown, queue_put]
    by_cases same : kind = letter.kind <;> simp [ofKind, same, eq_comm]
  | @take kind' letter rest h =>
    have filed : letter.kind = kind' := by
      apply orderly.filed
      rw [queue_of_take h kind', if_pos rfl]
      exact List.mem_cons_self
    rw [queue_of_take h kind]
    by_cases same : kind = kind' <;>
      simp [ofKind, World.taken, Event.arrivals, Event.thrown, filed, same, eq_comm]
  | signal => simp [queue_signal, World.taken, Event.thrown, Event.arrivals]
  | abandon =>
    rw [queue_abandon]
    change ofKind kind intake.letters = intake.queue kind ++ []
    rw [orderly.ofKind_letters, List.append_nil]
  | apart unarrived untaken unthrown =>
    rw [unarrived, untaken, unthrown]
    rfl

end Changes

end Intake

namespace World

variable {w w' : World} {e : Event} {log : List Event} {script : Script} {intake : Intake}

theorem apart_ofStage (i : Nat) (errand : Errand) (stage : Stage) :
    intake.Changes (Event.ofStage i errand stage) intake := by
  cases stage <;> exact .apart rfl rfl rfl

theorem hasRoom_zero {kind : Kind} {waiting : Nat} (h : intake.hasRoom kind waiting = true) :
    intake.hasRoom kind 0 = true := by
  simp only [Intake.hasRoom, decide_eq_true_eq] at h ⊢
  omega

/-- **A step in front of a worker's part played by hand changes the channels as its event says.** -/
theorem changes_step (step : Step w e w') (engine : w.engine = .scripted script)
    (hi : w.intake = some intake) :
    ∃ intake', w'.intake = some intake' ∧ intake.Changes e intake' := by
  have unsealed : ∀ sealer, w.engine ≠ .sealer sealer := by
    intro sealer other
    rw [engine] at other
    cases other
  cases step with
  | move step =>
    cases step with
    | advance => exact ⟨intake, hi, apart_ofStage _ _ _⟩
    | enter _ _ hi' _ attended room =>
      obtain rfl := Option.some.inj (hi.symm.trans hi')
      exact ⟨_, rfl, .put attended room (.inl rfl)⟩
    | produce _ _ _ pushed =>
      obtain ⟨_, other, -⟩ := pushTask_eq_ok pushed
      exact absurd other (unsealed _)
    | quit working | handle working | serve working | clean working =>
      exact absurd working.engine (unsealed _)
    | release => exact ⟨_, intake_signal hi, .signal⟩
  | act step =>
    cases step with
    | post hi' attended room =>
      obtain rfl := Option.some.inj (hi.symm.trans hi')
      exact ⟨_, rfl, .put attended (hasRoom_zero room) (.inr rfl)⟩
    | push pushed =>
      obtain ⟨_, other, -⟩ := pushTask_eq_ok pushed
      exact absurd other (unsealed _)
    | signal => exact ⟨_, intake_signal hi, .signal⟩
    | receive other | abandon other | join other => exact absurd other (unsealed _)
    | take _ hi' taken =>
      obtain rfl := Option.some.inj (hi.symm.trans hi')
      exact ⟨_, rfl, .take taken⟩
    | drop _ hi' =>
      obtain rfl := Option.some.inj (hi.symm.trans hi')
      exact ⟨_, (lose_frame _ _).2.1, .abandon⟩
    | ring =>
      refine ⟨intake, ?_, .apart rfl rfl rfl⟩
      unfold fire
      split
      · next other => exact absurd other (unsealed _)
      · exact hi
      · exact hi
    | make | abort | setHashrate | resolve | read | detach | pass | report =>
      exact ⟨intake, hi, .apart rfl rfl rfl⟩

/-- The channels are accounted for by the log. -/
structure Accounted (intake : Intake) (capacity : Nat) (log : List Event) : Prop where
  capacity_eq : intake.capacity = capacity
  orderly : intake.Orderly
  unthrown : intake.attended = true → thrown log = []
  empty : intake.attended = false → ∀ kind, intake.queue kind = []
  fifo : ∀ kind, ofKind kind (taken log) ++ intake.queue kind ++ ofKind kind (thrown log)
    = ofKind kind (arrivals log)

theorem Accounted.step {intake' : Intake} {capacity : Nat} (h : Accounted intake capacity log)
    (changes : intake.Changes e intake') : Accounted intake' capacity (log ++ [e]) := by
  refine ⟨changes.capacity.trans h.capacity_eq, changes.orderly h.orderly, ?_,
    fun gone => changes.empty gone h.empty, ?_⟩
  · intro there
    rw [thrown_append, thrown_singleton, h.unthrown (changes.attended there),
      changes.unthrown there]
    rfl
  intro kind
  have before := h.fifo kind
  have now := changes.fifo h.orderly kind
  rw [taken_append, ofKind_append, thrown_append, thrown_singleton, ofKind_append, arrivals_append,
    arrivals_singleton, ofKind_append]
  cases attended : intake.attended with
  | true =>
    rw [h.unthrown attended] at before ⊢
    calc ofKind kind (taken log) ++ ofKind kind (taken [e]) ++ intake'.queue kind
          ++ ([] ++ ofKind kind e.thrown)
        = ofKind kind (taken log)
            ++ (ofKind kind (taken [e]) ++ intake'.queue kind ++ ofKind kind e.thrown) := by
          simp only [List.append_assoc, List.nil_append]
      _ = ofKind kind (taken log) ++ intake.queue kind ++ [] ++ ofKind kind e.arrivals := by
          rw [now, List.append_nil, List.append_assoc]
      _ = ofKind kind (arrivals log) ++ ofKind kind e.arrivals := congrArg (· ++ _) before
  | false =>
    -- In front of closed channels nothing happens any more.
    rw [h.empty attended, changes.unarrived attended] at now
    obtain ⟨kept, unthrown⟩ := List.append_eq_nil_iff.mp now
    obtain ⟨untaken, empty⟩ := List.append_eq_nil_iff.mp kept
    rw [h.empty attended, List.append_nil] at before
    rw [untaken, empty, unthrown, changes.unarrived attended, ← before]
    simp only [ofKind_nil, List.append_nil]

/-- **Every letter that came in was taken, is still there or was thrown away, in the order of coming
in.** -/
theorem accounted_run {capacity : Nat} (run : (scripted capacity).Run log w) :
    ∃ intake, w.intake = some intake ∧ Accounted intake (max capacity 1) log := by
  induction run with
  | refl =>
    refine ⟨Intake.start capacity, rfl, rfl, ⟨?_, ?_⟩, fun _ => rfl, nofun, ?_⟩
    · intro kind letter there
      cases kind <;> cases there
    · intro kind
      cases kind <;> exact Nat.zero_le _
    · intro kind
      cases kind <;> rfl
  | next before step ih =>
    obtain ⟨intake, hi, accounted⟩ := ih
    obtain ⟨script, engine, -⟩ := kept_scripted before
    obtain ⟨intake', hi', changes⟩ := changes_step step engine hi
    exact ⟨intake', hi', accounted.step changes⟩

end World

end MinerGateway
