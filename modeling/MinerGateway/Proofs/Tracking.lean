import Mathlib.Data.List.Nodup
import MinerGateway.Proofs.Life
import MinerGateway.Proofs.Soundness

/-!
Every call is where its history says.

`Tracked` ties a state to the log of the run that led to it: no two letters have one sender, and
each call has a life made of its own history, its stage and the place of its letter. Every step
keeps it (`tracked_step`), so it holds along every run from a started sealer or a scripted worker
(`Run.tracked`).

The steps come in few forms, and each form has its lemma: those that concern no call and no letter
(`Tracked.keep`), those of one call alone (`Tracked.alone`), a letter that comes into its channel,
is taken or is replied to (`Tracked.take`, `Tracked.reply`), and the loss of all letters in the
channels (`Tracked.lose`). What has to be seen in each of them is that the letters of all other
calls stay where they are (`Tracked.next`).
-/

namespace MinerGateway

def Stage.receive (reply : Reply) : Stage → Stage
  | .sent => .replied reply
  | stage => stage

/-- The letter of call `i` is at this place. -/
def Lies (queued held : List Letter) (i : Nat) : Place → Prop
  | .nowhere => ∀ message, ⟨i, message⟩ ∉ queued ∧ ⟨i, message⟩ ∉ held
  | .queued message => ⟨i, message⟩ ∈ queued
  | .held message => ⟨i, message⟩ ∈ held

/-- A call, if it was made, has this history and its letter at this place. -/
def Follows : Option (Errand × Stage) → List Happening → Place → Prop
  | none, past, place => past = [] ∧ place = .nowhere
  | some (errand, stage), past, place => Life errand past stage place

namespace World

/-- What a call is about and how far it has come. -/
def view (w : World) (i : Nat) : Option (Errand × Stage) :=
  w.calls[i]?.map fun call => (call.errand, call.stage)

/-- Every call is where its history says. -/
structure Tracked (w : World) (log : List Event) : Prop where
  connected : w.intake ≠ none
  senders : ((w.queued ++ w.held).map Letter.sender).Nodup
  calls : ∀ i, ∃ place, Lies w.queued w.held i place ∧ Follows (w.view i) (history i log) place

end World

/-! ## Places -/

section

variable {queued queued' held held' : List Letter} {letter : Letter}
  {i : Nat} {place place' : Place}

theorem Lies.perm (hq : queued.Perm queued') (hh : held.Perm held') (h : Lies queued held i place) :
    Lies queued' held' i place := by
  cases place with
  | nowhere =>
    intro message
    constructor
    · intro hm
      exact (h message).1 (hq.mem_iff.mpr hm)
    · intro hm
      exact (h message).2 (hh.mem_iff.mpr hm)
  | queued message => exact hq.mem_iff.mp h
  | held message => exact hh.mem_iff.mp h

theorem Lies.unique (senders : ((queued ++ held).map Letter.sender).Nodup)
    (h : Lies queued held i place) (h' : Lies queued held i place') : place = place' := by
  have same : ∀ message message', (⟨i, message⟩ : Letter) ∈ queued ++ held →
      (⟨i, message'⟩ : Letter) ∈ queued ++ held → message = message' := by
    intro message message' hm hm'
    have letters := List.inj_on_of_nodup_map senders hm hm' rfl
    exact (Letter.mk.inj letters).2
  -- Without repetition over both, a letter is not in the channels and held at once.
  have apart : ∀ message message', (⟨i, message⟩ : Letter) ∈ queued →
      (⟨i, message'⟩ : Letter) ∉ held := by
    intro message message' hm hm'
    obtain rfl := same message message' (List.mem_append_left _ hm) (List.mem_append_right _ hm')
    exact (List.nodup_append.mp (List.Nodup.of_map _ senders)).2.2 _ hm _ hm' rfl
  cases place with
  | nowhere =>
    cases place' with
    | nowhere => rfl
    | queued message => exact absurd h' (h message).1
    | held message => exact absurd h' (h message).2
  | queued message =>
    cases place' with
    | nowhere => exact absurd h (h' message).1
    | queued message' =>
      rw [same message message' (List.mem_append_left _ h) (List.mem_append_left _ h')]
    | held message' => exact absurd h' (apart message message' h)
  | held message =>
    cases place' with
    | nowhere => exact absurd h (h' message).2
    | queued message' => exact absurd h (apart message' message h')
    | held message' =>
      rw [same message message' (List.mem_append_right _ h) (List.mem_append_right _ h')]

theorem Lies.cons_queued (other : letter.sender ≠ i) :
    Lies (letter :: queued) held i place ↔ Lies queued held i place := by
  have away : ∀ message, (⟨i, message⟩ : Letter) ∈ letter :: queued ↔ ⟨i, message⟩ ∈ queued := by
    intro message
    rw [List.mem_cons, or_iff_right]
    rintro rfl
    exact other rfl
  cases place <;> simp only [Lies, away]

theorem Lies.cons_held (other : letter.sender ≠ i) :
    Lies queued (letter :: held) i place ↔ Lies queued held i place := by
  have away : ∀ message, (⟨i, message⟩ : Letter) ∈ letter :: held ↔ ⟨i, message⟩ ∈ held := by
    intro message
    rw [List.mem_cons, or_iff_right]
    rintro rfl
    exact other rfl
  cases place <;> simp only [Lies, away]

theorem Lies.gone_queued (senders : ((letter :: queued ++ held).map Letter.sender).Nodup) :
    Lies queued held letter.sender .nowhere := by
  have fresh : ∀ other ∈ queued ++ held, other.sender ≠ letter.sender := by
    intro other hm h
    exact (List.nodup_cons.mp senders).1 (h ▸ List.mem_map_of_mem hm)
  intro message
  constructor
  · intro hm
    exact fresh _ (List.mem_append_left _ hm) rfl
  · intro hm
    exact fresh _ (List.mem_append_right _ hm) rfl

theorem Lies.gone_held (senders : ((queued ++ letter :: held).map Letter.sender).Nodup) :
    Lies queued held letter.sender .nowhere := by
  have senders' : ((letter :: queued ++ held).map Letter.sender).Nodup :=
    (List.perm_middle.map _).nodup_iff.mp senders
  exact Lies.gone_queued senders'

theorem senders_cons (senders : ((queued ++ held).map Letter.sender).Nodup)
    (free : Lies queued held letter.sender .nowhere) :
    ((letter :: queued ++ held).map Letter.sender).Nodup := by
  apply List.nodup_cons.mpr
  refine ⟨?_, senders⟩
  intro hm
  obtain ⟨other, hm, h⟩ := List.mem_map.mp hm
  have found : (⟨letter.sender, other.message⟩ : Letter) ∈ queued ++ held := h ▸ hm
  rcases List.mem_append.mp found with hm | hm
  · exact (free other.message).1 hm
  · exact (free other.message).2 hm

theorem filter_sender (senders : (queued.map Letter.sender).Nodup) (hm : letter ∈ queued) :
    queued.filter (·.sender = letter.sender) = [letter] := by
  induction queued with
  | nil => cases hm
  | cons first rest ih =>
    obtain ⟨fresh, senders⟩ := List.nodup_cons.mp senders
    rcases List.mem_cons.mp hm with rfl | hm
    · have none : rest.filter (·.sender = letter.sender) = [] := by
        apply List.filter_eq_nil_iff.mpr
        intro other ho h
        apply fresh
        rw [← of_decide_eq_true h]
        exact List.mem_map_of_mem ho
      rw [List.filter_cons_of_pos (by simp), none]
    · have other : first.sender ≠ letter.sender := by
        intro h
        exact fresh (h ▸ List.mem_map_of_mem hm)
      rw [List.filter_cons_of_neg (by simp [other]), ih senders hm]

end

/-! ## Views -/

namespace World

variable {w w' : World} {log : List Event} {e : Event}

theorem receive_stage (reply : Reply) (call : Call) :
    (call.receive reply).stage = call.stage.receive reply := by
  obtain ⟨errand, stage, reported⟩ := call
  cases stage <;> rfl

theorem exists_call {i : Nat} {errand : Errand} {stage : Stage}
    (h : w.view i = some (errand, stage)) :
    ∃ call, w.calls[i]? = some call ∧ call.errand = errand ∧ call.stage = stage := by
  obtain ⟨call, found, same⟩ := Option.map_eq_some_iff.mp h
  exact ⟨call, found, (Prod.mk.inj same).1, (Prod.mk.inj same).2⟩

theorem view_eq_some {i : Nat} {call : Call} (found : w.calls[i]? = some call) :
    w.view i = some (call.errand, call.stage) := by
  rw [view, found, Option.map_some]

theorem view_setStage (w : World) (i j : Nat) (stage : Stage) :
    (w.setStage i stage).view j =
      if i = j then (w.view j).map fun v => (v.1, stage) else w.view j := by
  unfold view
  rw [getElem?_setStage]
  split
  · rw [Option.map_map, Option.map_map]
    rfl
  · rfl

theorem view_deliver (w : World) (i j : Nat) (reply : Reply) :
    (w.deliver i reply).view j =
      if i = j then (w.view j).map fun v => (v.1, v.2.receive reply) else w.view j := by
  unfold view
  rw [getElem?_deliver]
  split
  · rw [Option.map_map, Option.map_map]
    congr 1
    funext call
    exact Prod.ext (receive_errand reply call) (receive_stage reply call)
  · rfl

theorem view_lose (letters : List Letter) (w : World) (j : Nat) :
    (w.lose letters).view j =
      if j ∈ letters.map Letter.sender then (w.view j).map fun v => (v.1, v.2.receive .lost)
      else w.view j := by
  unfold view
  rw [getElem?_lose]
  split
  · rw [Option.map_map, Option.map_map]
    congr 1
    funext call
    exact Prod.ext (receive_errand .lost call) (receive_stage .lost call)
  · rfl

theorem view_markReported (w : World) (j : Nat) : w.markReported.view j = w.view j := by
  simp only [view, markReported, List.getElem?_map, Option.map_map]
  rfl

theorem view_makeCall (w : World) (errand : Errand) (j : Nat) :
    (w.makeCall errand).2.view j =
      if j = w.calls.length then some (errand, .made) else w.view j := by
  simp only [view, makeCall]
  rcases Nat.lt_trichotomy j w.calls.length with h | rfl | h
  · rw [List.getElem?_append_left h, if_neg (by omega)]
  · simp
  · rw [List.getElem?_append_right (by omega), if_neg (by omega), List.getElem?_eq_none,
      List.getElem?_eq_none (by omega)]
    simp only [List.length_cons, List.length_nil]
    omega

theorem view_eq_none_of_le {i : Nat} (h : w.calls.length ≤ i) : w.view i = none := by
  rw [view, List.getElem?_eq_none h, Option.map_none]

theorem queued_eq {intake : Intake} (h : w.intake = some intake) : w.queued = intake.letters := by
  rw [queued, h, Option.map_some, Option.getD_some]

theorem held_of_sealer {sealer : Sealer} (h : w.engine = .sealer sealer) : w.held = [] := by
  rw [held, h]

theorem held_of_scripted {script : Script} (h : w.engine = .scripted script) :
    w.held = script.held.filterMap id := by
  rw [held, h]

/-! ## Steps -/

/-- The next state is tracked if every single call is. -/
theorem Tracked.next (h : w.Tracked log) (connected : w'.intake ≠ none)
    (senders : ((w'.queued ++ w'.held).map Letter.sender).Nodup)
    (each : ∀ i place, Lies w.queued w.held i place → Follows (w.view i) (history i log) place →
      ∃ place', Lies w'.queued w'.held i place' ∧
        Follows (w'.view i) (history i log ++ e.happenings i) place') :
    w'.Tracked (log ++ [e]) := by
  refine ⟨connected, senders, ?_⟩
  intro i
  obtain ⟨place, lies, follows⟩ := h.calls i
  rw [history_append, history_singleton]
  exact each i place lies follows

theorem Tracked.keep (h : w.Tracked log) (connected : w'.intake ≠ none)
    (queued : w'.queued = w.queued) (held : w'.held = w.held) (view : ∀ i, w'.view i = w.view i)
    (silent : ∀ i, e.happenings i = []) : w'.Tracked (log ++ [e]) := by
  apply h.next connected
  · rw [queued, held]
    exact h.senders
  · intro i place lies follows
    rw [queued, held, view, silent, List.append_nil]
    exact ⟨place, lies, follows⟩

theorem Tracked.alone (h : w.Tracked log) (connected : w'.intake ≠ none)
    (queued : w'.queued = w.queued) (held : w'.held = w.held) (j : Nat)
    (view : ∀ i, j ≠ i → w'.view i = w.view i) (silent : ∀ i, j ≠ i → e.happenings i = [])
    (follows : ∀ place, Follows (w.view j) (history j log) place →
      Follows (w'.view j) (history j log ++ e.happenings j) place) : w'.Tracked (log ++ [e]) := by
  apply h.next connected
  · rw [queued, held]
    exact h.senders
  intro i place lies before
  rw [queued, held]
  refine ⟨place, lies, ?_⟩
  by_cases hij : j = i
  · subst hij
    exact follows place before
  · rw [view i hij, silent i hij, List.append_nil]
    exact before

/-- A letter on its way is replied to, and its sender learns of it unless it has gone. -/
theorem replied_of_life {errand : Errand} {past : List Happening} {stage : Stage} {place : Place}
    {message : Message} {reply : Reply} (life : Life errand past stage place)
    (letter : place.message? = some message) (fit : message.Fits reply) :
    Life errand (past ++ [.replied message reply]) (stage.receive reply) .nowhere := by
  rcases life.stage_of_message? letter with rfl | rfl
  · exact .reply life letter fit
  · exact .late life letter fit

/-- A call that does something on its own has no letter on its way. -/
theorem nowhere_of_life {errand : Errand} {past : List Happening} {stage : Stage} {place : Place}
    (life : Life errand past stage place) (h : stage ≠ .sent) (h' : stage ≠ .finished .aborted) :
    place = .nowhere := by
  have none : place.message? = none := by
    cases hm : place.message? with
    | none => rfl
    | some message => exact absurd (life.stage_of_message? hm) (by simp [h, h'])
  cases place with
  | nowhere => rfl
  | queued message => cases none
  | held message => cases none

theorem happenings_ofStage (i : Nat) (errand : Errand) (stage : Stage) :
    (Event.ofStage i errand stage).happenings i = stage.conclusion := by
  cases stage <;> simp [Event.ofStage, Event.happenings, Stage.conclusion]

theorem happenings_ofStage_ne {i j : Nat} (h : i ≠ j) (errand : Errand) (stage : Stage) :
    (Event.ofStage i errand stage).happenings j = [] := by
  cases stage <;> simp [Event.ofStage, Event.happenings, h]

theorem Tracked.advance (h : w.Tracked log) {i : Nat} {call : Call} {stage : Stage}
    (found : w.calls[i]? = some call) (step : Advances w call.errand call.stage stage) :
    (w.setStage i stage).Tracked (log ++ [.ofStage i call.errand stage]) := by
  refine h.alone h.connected rfl rfl i ?_ ?_ ?_
  · intro j hij
    rw [view_setStage, if_neg hij]
  · intro j hij
    exact happenings_ofStage_ne hij _ _
  · intro place follows
    rw [view_eq_some found] at follows
    rw [view_setStage, if_pos rfl, view_eq_some found, Option.map_some, happenings_ofStage]
    obtain rfl := nowhere_of_life follows step.stage_ne.1 (step.stage_ne.2 _)
    exact .advance follows h.connected step

theorem Tracked.pushTask (h : w.Tracked log) {task : Task} (pushed : w.pushTask task = .ok w') :
    w'.Tracked (log ++ [.pushed task]) := by
  obtain ⟨sealer, engine, -, -, rfl⟩ := pushTask_eq_ok pushed
  exact h.keep h.connected rfl ((held_of_sealer rfl).trans (held_of_sealer engine).symm)
    (fun _ => rfl) fun _ => rfl

theorem Tracked.produce (h : w.Tracked log) {i : Nat} {call : Call} {chain next : Devnet.Chain}
    {due due' : Bool} (found : w.calls[i]? = some call)
    (stage : call.stage = .producing chain due) :
    (w.setStage i (.producing next due')).Tracked log := by
  refine ⟨h.connected, h.senders, ?_⟩
  intro j
  obtain ⟨place, lies, follows⟩ := h.calls j
  refine ⟨place, lies, ?_⟩
  by_cases hij : i = j
  · subst hij
    rw [view_eq_some found, stage] at follows
    rw [view_setStage, if_pos rfl, view_eq_some found, Option.map_some]
    obtain rfl := nowhere_of_life follows (by simp) (by simp)
    exact .produce follows
  · rw [view_setStage, if_neg hij]
    exact follows

theorem Tracked.enter (h : w.Tracked log) {i : Nat} {call : Call} {message : Message}
    {intake : Intake} (found : w.calls[i]? = some call) (stage : call.stage = .waiting message)
    (hi : w.intake = some intake) :
    ({ w with intake := some (intake.put ⟨i, message⟩) }.setStage i .sent).Tracked
      (log ++ [Event.entered ⟨i, message⟩]) := by
  have letters : (intake.put ⟨i, message⟩).letters.Perm (⟨i, message⟩ :: w.queued) :=
    queued_eq hi ▸ Intake.letters_put_perm intake ⟨i, message⟩
  have waits : Lies w.queued w.held i .nowhere ∧ Life call.errand (history i log) (.waiting message)
      .nowhere := by
    obtain ⟨place, lies, follows⟩ := h.calls i
    rw [view_eq_some found, stage] at follows
    obtain rfl := nowhere_of_life follows (by simp) (by simp)
    exact ⟨lies, follows⟩
  apply h.next (Option.some_ne_none _)
  · exact ((letters.append_right _).map _).nodup_iff.mpr (senders_cons h.senders waits.1)
  · intro j place lies follows
    -- The letter of the call that enters was nowhere, so every other letter stays where it was.
    by_cases hij : i = j
    · subst hij
      refine ⟨.queued message, letters.mem_iff.mpr List.mem_cons_self, ?_⟩
      rw [view_setStage, if_pos rfl]
      simp only [Event.happenings, if_true]
      have view : ({ w with intake := some (intake.put ⟨i, message⟩) } : World).view i
          = some (call.errand, call.stage) := view_eq_some found
      rw [view]
      exact .enter waits.2
    · refine ⟨place, (Lies.cons_queued hij).mpr lies |>.perm letters.symm (.refl _), ?_⟩
      rw [view_setStage, if_neg hij]
      simp only [Event.happenings, hij, if_false, List.append_nil]
      exact follows

theorem Tracked.abort (h : w.Tracked log) {i : Nat} {call : Call} (found : w.calls[i]? = some call)
    (unfinished : call.answer? = none) :
    (w.setStage i (.finished .aborted)).Tracked
      (log ++ [Event.aborted i]) := by
  refine h.alone h.connected rfl rfl i ?_ ?_ ?_
  · intro j hij
    rw [view_setStage, if_neg hij]
  · intro j hij
    simp [Event.happenings, hij]
  · intro place follows
    rw [view_eq_some found] at follows
    rw [view_setStage, if_pos rfl, view_eq_some found, Option.map_some]
    simp only [Event.happenings, if_true]
    apply Life.abort follows
    intro answer hs
    simp [Call.answer?, hs] at unfinished

theorem Tracked.make (h : w.Tracked log) {errand : Errand} (letter : errand ≠ .letter) :
    (w.makeCall errand).2.Tracked (log ++ [Event.made w.calls.length errand]) := by
  refine h.alone h.connected rfl rfl w.calls.length ?_ ?_ ?_
  · intro j hj
    rw [view_makeCall, if_neg (Ne.symm hj)]
  · intro j hj
    simp [Event.happenings, hj]
  · intro place follows
    rw [view_eq_none_of_le (Nat.le_refl _)] at follows
    obtain ⟨past, rfl⟩ := follows
    rw [view_makeCall, if_pos rfl, past]
    simp only [Event.happenings, if_true]
    exact .made letter

theorem Tracked.post (h : w.Tracked log) {intake : Intake} (message : Message)
    (hi : w.intake = some intake) :
    ({ (w.makeCall .letter).2 with
        intake := some (intake.put ⟨w.calls.length, message⟩) }.setStage w.calls.length
      .sent).Tracked (log ++ [Event.posted ⟨w.calls.length, message⟩]) := by
  have letters : (intake.put ⟨w.calls.length, message⟩).letters.Perm
      (⟨w.calls.length, message⟩ :: w.queued) :=
    queued_eq hi ▸ Intake.letters_put_perm intake ⟨w.calls.length, message⟩
  have fresh : Lies w.queued w.held w.calls.length .nowhere ∧ history w.calls.length log = [] := by
    obtain ⟨place, lies, follows⟩ := h.calls w.calls.length
    rw [view_eq_none_of_le (Nat.le_refl _)] at follows
    obtain ⟨past, rfl⟩ := follows
    exact ⟨lies, past⟩
  have view : ∀ j, ({ (w.makeCall .letter).2 with
      intake := some (intake.put ⟨w.calls.length, message⟩) } : World).view j
        = if j = w.calls.length then some (.letter, .made) else w.view j := view_makeCall w .letter
  apply h.next (by simp [setStage])
  · exact ((letters.append_right _).map _).nodup_iff.mpr (senders_cons h.senders fresh.1)
  · intro j place lies follows
    by_cases hj : w.calls.length = j
    · subst hj
      refine ⟨.queued message, letters.mem_iff.mpr List.mem_cons_self, ?_⟩
      rw [view_setStage, if_pos rfl, view, if_pos rfl, fresh.2]
      simp only [Event.happenings, if_true]
      exact .posted rfl
    · refine ⟨place, (Lies.cons_queued hj).mpr lies |>.perm letters.symm (.refl _), ?_⟩
      rw [view_setStage, if_neg hj, view, if_neg (Ne.symm hj)]
      simp only [Event.happenings, hj, if_false, List.append_nil]
      exact follows

theorem Tracked.take (h : w.Tracked log) {letter : Letter} (connected : w'.intake ≠ none)
    (queued : w.queued.Perm (letter :: w'.queued)) (held : w'.held.Perm (letter :: w.held))
    (view : ∀ i, w'.view i = w.view i) : w'.Tracked (log ++ [Event.taken letter]) := by
  have moved : (w.queued ++ w.held).Perm (w'.queued ++ w'.held) :=
    (queued.append_right _).trans ((List.perm_middle.symm).trans (held.symm.append_left _))
  apply h.next connected ((moved.map _).nodup_iff.mp h.senders)
  intro i place lies follows
  rw [view]
  by_cases hi : letter.sender = i
  · subst hi
    have here : Lies w.queued w.held letter.sender (.queued letter.message) :=
      queued.mem_iff.mpr List.mem_cons_self
    obtain rfl := lies.unique h.senders here
    refine ⟨.held letter.message, held.mem_iff.mpr List.mem_cons_self, ?_⟩
    simp only [Event.happenings, if_true]
    revert follows
    cases w.view letter.sender with
    | none =>
      intro follows
      cases follows.2
    | some v =>
      intro follows
      exact .take follows
  · refine ⟨place, ?_, ?_⟩
    · have away := (Lies.cons_queued hi).mp (lies.perm queued (.refl _))
      exact ((Lies.cons_held hi).mpr away).perm (.refl _) held.symm
    · simp only [Event.happenings, hi, if_false, List.append_nil]
      exact follows

/-- A call whose letter is on its way is replied to. -/
theorem follows_reply {v : Option (Errand × Stage)} {past : List Happening} {place : Place}
    {message : Message} {reply : Reply} (follows : Follows v past place)
    (letter : place.message? = some message) (fit : message.Fits reply) :
    Follows (v.map fun v => (v.1, v.2.receive reply)) (past ++ [.replied message reply])
      .nowhere := by
  cases v with
  | none =>
    rw [follows.2] at letter
    cases letter
  | some v => exact replied_of_life follows letter fit

theorem Tracked.reply (h : w.Tracked log) {letter : Letter} {reply : Reply}
    (connected : w'.intake ≠ none)
    (removed : (w.queued.Perm (letter :: w'.queued) ∧ w.held = w'.held) ∨
      (w.queued = w'.queued ∧ w.held.Perm (letter :: w'.held)))
    (fit : letter.message.Fits reply) (view : ∀ i, w'.view i = w.view i)
    (happened : ∀ i, e.happenings i
      = if letter.sender = i then [.replied letter.message reply] else []) :
    (w'.deliver letter.sender reply).Tracked (log ++ [e]) := by
  have senders := h.senders
  -- Wherever the letter was, it is gone from there and no other letter has moved.
  obtain ⟨place, message, here, senders', gone, others⟩ :
      ∃ place : Place, place.message? = some letter.message ∧
        Lies w.queued w.held letter.sender place ∧
        ((w'.queued ++ w'.held).map Letter.sender).Nodup ∧
        Lies w'.queued w'.held letter.sender .nowhere ∧
        ∀ i place, letter.sender ≠ i → Lies w.queued w.held i place →
          Lies w'.queued w'.held i place := by
    rcases removed with ⟨queued, held⟩ | ⟨queued, held⟩
    · rw [held] at senders ⊢
      have senders' := ((queued.append_right _).map _).nodup_iff.mp senders
      refine ⟨.queued letter.message, rfl, queued.mem_iff.mpr List.mem_cons_self,
        (List.nodup_cons.mp senders').2, .gone_queued senders', ?_⟩
      intro i place other lies
      exact (Lies.cons_queued other).mp (lies.perm queued (.refl _))
    · rw [queued] at senders ⊢
      have senders' := ((held.append_left _).map _).nodup_iff.mp senders
      have senders'' := (List.perm_middle.map _).nodup_iff.mp senders'
      refine ⟨.held letter.message, rfl, held.mem_iff.mpr List.mem_cons_self,
        (List.nodup_cons.mp senders'').2, .gone_held senders', ?_⟩
      intro i place other lies
      exact (Lies.cons_held other).mp (lies.perm (.refl _) held)
  refine h.next connected senders' ?_
  intro i place' lies follows
  rw [view_deliver, view, happened]
  by_cases hi : letter.sender = i
  · subst hi
    obtain rfl := lies.unique h.senders here
    rw [if_pos rfl, if_pos rfl]
    exact ⟨.nowhere, gone, follows_reply follows message fit⟩
  · rw [if_neg hi, if_neg hi, List.append_nil]
    exact ⟨place', others i place' hi lies, follows⟩

/-- The channels go away, and each letter in them is lost. -/
theorem Tracked.lose (h : w.Tracked log) {intake : Intake} {engine : Engine}
    (hi : w.intake = some intake)
    (held : ({ w with engine, intake := some intake.abandon } : World).held = w.held)
    (happened : ∀ i, e.happenings i
      = (intake.letters.filter (·.sender = i)).map fun letter => .replied letter.message .lost) :
    ({ w with engine, intake := some intake.abandon }.lose intake.letters).Tracked
      (log ++ [e]) := by
  obtain ⟨hengine, hintake, -⟩ :=
    lose_frame intake.letters { w with engine, intake := some intake.abandon }
  have queued' : ({ w with engine, intake := some intake.abandon }.lose intake.letters).queued
      = [] :=
    queued_eq hintake
  have held' : ({ w with engine, intake := some intake.abandon }.lose intake.letters).held
      = w.held := by
    rw [← held, World.held, hengine]
    rfl
  have senders := h.senders
  rw [queued_eq hi, List.map_append] at senders
  refine h.next (by rw [hintake]; exact Option.some_ne_none _) ?_ ?_
  · rw [queued', held', List.nil_append]
    exact (List.nodup_append.mp senders).2.1
  intro i place lies follows
  rw [queued', held', view_lose, happened]
  change ∃ place', _ ∧ Follows (if i ∈ intake.letters.map Letter.sender then
    (w.view i).map _ else w.view i) _ place'
  by_cases lost : i ∈ intake.letters.map Letter.sender
  · obtain ⟨letter, hm, rfl⟩ := List.mem_map.mp lost
    have here : Lies w.queued w.held letter.sender (.queued letter.message) :=
      queued_eq hi ▸ hm
    obtain rfl := lies.unique h.senders here
    rw [if_pos lost, filter_sender (List.nodup_append.mp senders).1 hm]
    refine ⟨.nowhere, ?_, follows_reply follows rfl (by cases letter.message <;> trivial)⟩
    intro message
    refine ⟨List.not_mem_nil, ?_⟩
    intro hm'
    have twice : Lies w.queued w.held letter.sender (.held message) := hm'
    have same := here.unique h.senders twice
    cases same
  · have none : intake.letters.filter (·.sender = i) = [] := by
      apply List.filter_eq_nil_iff.mpr
      intro letter hm hs
      exact lost (of_decide_eq_true hs ▸ List.mem_map_of_mem hm)
    rw [if_neg lost, none, List.map_nil, List.append_nil]
    refine ⟨place, ?_, follows⟩
    cases place with
    | nowhere =>
      intro message
      exact ⟨List.not_mem_nil, (lies message).2⟩
    | queued message =>
      rw [queued_eq hi] at lies
      exact absurd (List.mem_map_of_mem lies) lost
    | held message => exact lies

/-! ## All steps -/

theorem fits_serve (sealer : Sealer) (now : Nat) (message : Message) :
    message.Fits (sealer.serve now message).2 := by
  cases message with
  | fetch => trivial
  | submission s =>
    simp only [Sealer.serve]
    split <;> trivial
  | report r => trivial

theorem fits_ruling {message : Message} {reply : Reply}
    (fit : reply = .lost ∨ ∃ ruling : Ruling, ruling.reply? message = some reply) :
    message.Fits reply := by
  rcases fit with rfl | ⟨ruling, h⟩
  · cases message <;> trivial
  · cases message with
    | fetch =>
      cases ruling with
      | refuse error => cases h; trivial
      | grant package =>
        obtain ⟨package, -, rfl⟩ := Option.map_eq_some_iff.mp h
        trivial
    | submission s => cases ruling <;> cases h <;> trivial
    | report r => cases ruling <;> cases h <;> trivial

theorem held_set_perm {places : List (Option Letter)} {n : Nat} {letter : Letter}
    (h : places[n]? = some (some letter)) :
    (places.filterMap id).Perm (letter :: (places.set n none).filterMap id) := by
  -- On the places: the letter is at the first of them, or among the rest.
  induction places generalizing n with
  | nil => cases h
  | cons first rest ih =>
    cases n with
    | zero =>
      obtain rfl : first = some letter := by simpa using h
      exact .refl _
    | succ n =>
      have rest := ih (n := n) (by simpa using h)
      cases first with
      | none => exact rest
      | some other => exact (rest.cons other).trans (.swap ..)

theorem tracked_move (step : Move w e w') (h : w.Tracked log) : w'.Tracked (log ++ [e]) := by
  cases step with
  | advance found step => exact h.advance found step
  | enter found stage hi => exact h.enter found stage hi
  | @produce pushed i interval call chain found stage _ hpush =>
    -- The push and the source's next chain are one step of the run.
    have next := h.pushTask hpush
    have found' : pushed.calls[i]? = some call := by
      obtain ⟨sealer, -, -, -, rfl⟩ := pushTask_eq_ok hpush
      exact found
    have produced :
        (pushed.setStage i (.producing (chain.advance Sha256.digest) false)).Tracked _ :=
      next.produce found' stage
    obtain ⟨connected, senders, calls⟩ := produced
    exact ⟨connected, senders, calls⟩
  | @quit sealer intake working =>
    exact h.lose working.intake ((held_of_sealer rfl).trans (held_of_sealer working.engine).symm)
      fun _ => rfl
  | handle working | clean working =>
    exact h.keep h.connected rfl ((held_of_sealer rfl).trans (held_of_sealer working.engine).symm)
      (fun _ => rfl) fun _ => rfl
  | @serve sealer intake rest letter working quiet queue next =>
    obtain ⟨kind, taken⟩ := Intake.next_eq_some next
    refine h.reply (Option.some_ne_none _) (.inl ⟨?_, ?_⟩)
      (fits_serve ..) (fun _ => rfl) fun _ => rfl
    · exact queued_eq working.intake ▸ Intake.letters_take_perm taken
    · exact (held_of_sealer working.engine).trans (held_of_sealer rfl).symm
  | release =>
    obtain ⟨intake, hi⟩ := Option.ne_none_iff_exists'.mp h.connected
    exact h.keep (by simp [intake_signal hi]) (queued_signal w) rfl (fun _ => rfl)
      fun _ => rfl

theorem Tracked.fire (h : w.Tracked log) (owner : Owner) :
    (w.fire owner).Tracked log := by
  unfold World.fire
  split
  · next sealer engine =>
    split
    · obtain ⟨connected, senders, calls⟩ := h
      have held : ({ w with engine := .sealer { sealer with cleanupDue := true } } : World).held
          = w.held := (held_of_sealer rfl).trans (held_of_sealer engine).symm
      refine ⟨connected, held.symm ▸ senders, held.symm ▸ calls⟩
    · exact h
  · exact h
  · next _ i =>
    -- Only the stage of the source of tasks that set the timer moves, and it has no letter.
    refine ⟨h.connected, h.senders, ?_⟩
    intro j
    obtain ⟨place, lies, follows⟩ := h.calls j
    refine ⟨place, lies, ?_⟩
    simp only [view, List.getElem?_modify] at follows ⊢
    by_cases hij : i = j
    · subst hij
      cases found : w.calls[i]? with
      | none => simpa [found] using follows
      | some call =>
        obtain ⟨errand, stage, reported⟩ := call
        simp only [found, Option.map_some] at follows
        simp only [if_true, Option.map_eq_map, Option.map_some]
        cases stage with
        | producing chain due =>
          obtain rfl := nowhere_of_life follows (by simp) (by simp)
          exact .produce follows
        | _ => exact follows
    · simpa [hij] using follows

theorem tracked_act (step : Act w e w') (h : w.Tracked log) : w'.Tracked (log ++ [e]) := by
  cases step with
  | make letter => exact h.make letter
  | post hi => exact h.post _ hi
  | abort found unfinished => exact h.abort found unfinished
  | push pushed => exact h.pushTask pushed
  | signal =>
    obtain ⟨intake, hi⟩ := Option.ne_none_iff_exists'.mp h.connected
    exact h.keep (by simp [intake_signal hi]) (queued_signal w) rfl (fun _ => rfl)
      fun _ => rfl
  | receive engine | abandon engine | join engine =>
    exact h.keep h.connected rfl ((held_of_sealer rfl).trans (held_of_sealer engine).symm)
      (fun _ => rfl) fun _ => rfl
  | setHashrate engine =>
    exact h.keep h.connected rfl (by rw [held_of_scripted engine, held_of_scripted rfl])
      (fun _ => rfl) fun _ => rfl
  | @take intake rest script kind letter engine hi taken =>
    refine h.take (Option.some_ne_none _) ?_ ?_ fun _ => rfl
    · exact queued_eq hi ▸ Intake.letters_take_perm taken
    · rw [held_of_scripted engine, held_of_scripted rfl, List.filterMap_append]
      exact List.perm_append_singleton _ _
  | @resolve script held letter reply engine found fit =>
    refine h.reply h.connected (.inr ⟨rfl, ?_⟩) (fits_ruling fit) (fun _ => rfl) fun _ => rfl
    rw [held_of_scripted engine, held_of_scripted rfl]
    exact held_set_perm found
  | @drop intake script engine hi =>
    exact Tracked.lose h hi rfl fun _ => rfl
  | read | detach | pass => exact h.keep h.connected rfl rfl (fun _ => rfl) fun _ => rfl
  | @ring target timer timers =>
    have next : ({ w with now := timer.due, timers } : World).Tracked (log ++ [.other]) :=
      h.keep h.connected rfl rfl (fun _ => rfl) fun _ => rfl
    exact next.fire timer.owner
  | report => exact h.keep h.connected rfl rfl (view_markReported w) fun _ => rfl

theorem tracked_step (step : Step w e w') (h : w.Tracked log) : w'.Tracked (log ++ [e]) := by
  cases step with
  | move step => exact tracked_move step h
  | act step => exact tracked_act step h

theorem tracked_nil (connected : w.intake ≠ none) (queued : w.queued = []) (held : w.held = [])
    (calls : w.calls = []) : w.Tracked [] := by
  refine ⟨connected, by simp [queued, held], ?_⟩
  intro i
  refine ⟨.nowhere, ?_, ?_⟩
  · rw [queued, held]
    intro message
    exact ⟨List.not_mem_nil, List.not_mem_nil⟩
  · rw [view, calls]
    exact ⟨rfl, rfl⟩

theorem tracked_started (settings : EngineSettings) (verifier : Verifier) :
    (started settings verifier).Tracked [] := by
  refine tracked_nil (Option.some_ne_none _) ?_ rfl rfl
  simp only [queued, started, Option.map_some, Option.getD_some]
  split <;> rfl

theorem tracked_scripted (capacity : Nat) : (scripted capacity).Tracked [] :=
  tracked_nil (Option.some_ne_none _) rfl rfl rfl

theorem Run.tracked_from {start : World} {past : List Event} (h : start.Run log w)
    (tracked : start.Tracked past) : w.Tracked (past ++ log) := by
  induction h with
  | refl =>
    rw [List.append_nil]
    exact tracked
  | next _ step ih =>
    rw [← List.append_assoc]
    exact tracked_step step ih

theorem Run.tracked {start : World} (h : start.Run log w) (tracked : start.Tracked []) :
    w.Tracked log :=
  h.tracked_from tracked

theorem Tracked.life (h : w.Tracked log) {i : Nat} {errand : Errand} {stage : Stage}
    (hv : w.view i = some (errand, stage)) :
    ∃ place, Lies w.queued w.held i place ∧ Life errand (history i log) stage place := by
  obtain ⟨place, lies, follows⟩ := h.calls i
  rw [hv] at follows
  exact ⟨place, lies, follows⟩

/-- **What a call is about never changes, and a finished call stays as it is.** -/
theorem Tracked.view_run (h : w.Tracked log) {more : List Event} (run : w.Run more w') {i : Nat}
    {errand : Errand} {stage : Stage} (before : w.view i = some (errand, stage)) :
    ∃ stage', w'.view i = some (errand, stage') ∧
      ∀ answer, stage = .finished answer → stage' = .finished answer := by
  obtain ⟨place, -, life⟩ := h.life before
  have later : w'.Tracked (log ++ more) := run.tracked_from h
  cases after : w'.view i with
  | none =>
    -- A call that was made has a history.
    obtain ⟨place', -, follows⟩ := later.calls i
    rw [after, history_append] at follows
    have made := life.head?_eq
    rw [(List.append_eq_nil_iff.mp follows.1).1] at made
    cases made
  | some v =>
    obtain ⟨errand', stage'⟩ := v
    obtain ⟨place', -, life'⟩ := later.life after
    rw [history_append] at life'
    have made := life'.head?_eq
    rw [List.head?_append, life.head?_eq, Option.some_or] at made
    obtain rfl : errand = errand' := by simpa using made
    refine ⟨stage', rfl, ?_⟩
    intro answer finished
    have answers := life'.answers_eq
    rw [answers_append, life.answers_eq, finished] at answers
    cases stage' with
    | finished answer' => rw [(List.cons.inj answers).1]
    | _ => cases answers

end World

end MinerGateway
