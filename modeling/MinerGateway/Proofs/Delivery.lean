import MinerGateway.Proofs.Lines
import MinerGateway.Proofs.Resting

/-!
Nothing is lost or reordered on the way to a worker's part that is played by hand.

While the exit signal is not given, a settled state has the message of every unfinished call in
exactly one place, its channels are full wherever somebody waits, and its letters are taken in the
order of the calls, less those that were withdrawn (`World.Delivered`). Every session is a run in
turn, and `nothing_lost_or_reordered` says this of all settled states of all runs in turn. Whoever
is gone when the reply comes is not missed: the state stays as it is but for the letter
(`step_of_gone`).

Correspondence (the way of a message ↔ definition):
  waiting for room, in the order of the calls        ↔ `line`
  in its channel                                     ↔ `queue`
  taken, and held until it is answered or dropped    ↔ `taken`, `held`
  withdrawn, because its caller went away in line    ↔ `withdrawn`

What is assumed: room that is freed goes to the caller who has waited for it longest, and calls
begin in the order in which they were made (`InTurn`). Sessions keep both (`inTurn_session`). In a
run as such neither is asked for, and callers may overtake each other.
-/

namespace MinerGateway.World

variable {w w' : World} {log : List Event} {i : Nat} {intake : Intake} {script : Script}

/-! ## Calls and their letters -/

theorem Tracked.aborted_iff (tracked : w.Tracked log) {request : Request}
    {form : Form} {stage : Stage} (hv : w.view i = some (.miner request form, stage)) :
    .aborted i ∈ log ↔ stage = .finished .aborted := by
  constructor
  · intro gone
    obtain ⟨errand, ended⟩ := tracked.view_of_aborted gone
    exact (Prod.mk.inj (Option.some.inj (hv.symm.trans ended))).2
  · rintro rfl
    obtain ⟨place, -, life⟩ := tracked.life hv
    exact mem_of_aborted_mem_history life.aborted_mem

/-- A letter is withdrawn when its call ended aborted and it never came into a channel. -/
theorem Tracked.withdrawn_iff (tracked : w.Tracked log)
    {letter : Letter} (asks : letter ∈ asked log) :
    withdrawn log letter.sender = true ↔
      (∃ errand, w.view letter.sender = some (errand, .finished .aborted)) ∧
      letter ∉ arrivals log := by
  obtain ⟨request, form, stage, hv, hm⟩ := tracked.view_of_asked asks
  obtain ⟨place, -, life⟩ := tracked.life hv
  have unsent : (entries (history letter.sender log)).isEmpty = true ↔ letter ∉ arrivals log := by
    rw [List.isEmpty_iff]
    constructor
    · intro none arrived
      have sent := mem_arrivals.mp arrived
      rw [none] at sent
      cases sent
    · intro away
      apply List.eq_nil_iff_forall_not_mem.mpr
      intro message sent
      -- It can have sent nothing but its own letter.
      have own : request.message? = some message := life.writes.2 message sent
      obtain rfl : letter.message = message := Option.some.inj (hm.symm.trans own)
      exact away (mem_arrivals.mpr sent)
  rw [withdrawn, Bool.and_eq_true, any_aborts, unsent, tracked.aborted_iff hv, hv]
  refine and_congr_left fun _ => ⟨?_, ?_⟩
  · rintro rfl
    exact ⟨_, rfl⟩
  · rintro ⟨errand, same⟩
    exact (Prod.mk.inj (Option.some.inj same)).2

/-- Of the letters that came in, those of the miners' calls are those that got room. -/
theorem Tracked.asked_of_arrivals (tracked : w.Tracked log) (leads : Leads log) :
    (arrivals log).filter (· ∈ asked log) = entrants log := by
  rw [arrivals, entrants, List.filter_flatMap]
  apply List.flatMap_congr
  intro e he
  cases e with
  | entered letter =>
    have entered : letter ∈ entrants log := List.mem_flatMap.mpr ⟨_, he, List.mem_cons_self⟩
    have there := (leads letter.kind).mem (mem_ofKind.mpr ⟨entered, rfl⟩)
    have asks : letter ∈ asked log := (mem_ofKind.mp (List.mem_of_mem_filter there)).1
    simp [Event.arrivals, Event.entrants, asks]
  | posted letter =>
    -- A call that was made for its letter is not a miner's.
    have other : letter ∉ asked log := by
      intro asks
      obtain ⟨request, form, stage, hv, -⟩ := tracked.view_of_asked asks
      obtain ⟨place, -, life⟩ := tracked.life hv
      have made : .made .letter ∈ history letter.sender log :=
        List.mem_flatMap.mpr ⟨_, he, by simp [Event.happenings]⟩
      have same := life.eq_of_made_mem made
      cases same
    simp [Event.arrivals, Event.entrants, other]
  | _ => rfl

theorem Tracked.mem_line_iff (tracked : w.Tracked log) (begun : w.Begun) {letter : Letter} :
    letter ∈ w.line log ↔ w.Waits letter.sender letter.message := by
  constructor
  · intro there
    obtain ⟨asks, early⟩ := List.mem_filter.mp there
    rcases tracked.fresh_or_waits asks early with ⟨request, form, fresh⟩ | waits
    · exact absurd fresh (begun _ _)
    · exact waits
  · rintro ⟨errand, waits⟩
    obtain ⟨place, -, life⟩ := tracked.life waits
    obtain ⟨request, form, rfl, own⟩ := life.miner_of_waiting
    exact List.mem_filter.mpr ⟨tracked.asked_of_view waits own, inLine_eq waits⟩

/-! ## Places -/

theorem Tracked.apart_of_line (tracked : w.Tracked log) {letter other : Letter}
    (there : letter ∈ w.line log) (onTheWay : other ∈ w.queued ++ w.held) :
    letter.sender ≠ other.sender := by
  intro same
  obtain ⟨errand, stage, hv, early⟩ := inLine_iff.mp (List.mem_filter.mp there).2
  obtain ⟨place, lies, life⟩ := tracked.life hv
  obtain rfl : place = .nowhere := by
    apply nowhere_of_life life
    · rintro rfl
      cases early
    · rintro rfl
      cases early
  obtain ⟨sender, message⟩ := other
  obtain rfl : letter.sender = sender := same
  rcases List.mem_append.mp onTheWay with queued | held
  · exact (lies message).1 queued
  · exact (lies message).2 held

theorem Tracked.nodup_places (tracked : w.Tracked log)
    (sorted : (asked log).Pairwise (·.sender < ·.sender)) :
    ((w.line log ++ (w.queued ++ w.held)).map Letter.sender).Nodup := by
  rw [List.map_append, List.nodup_append]
  refine ⟨?_, tracked.senders, ?_⟩
  · have inOrder : ((w.line log).map Letter.sender).Pairwise (· < ·) :=
      List.pairwise_map.mpr (sorted.filter _)
    exact inOrder.imp Nat.ne_of_lt
  · intro sender inLine other onTheWay
    obtain ⟨letter, there, rfl⟩ := List.mem_map.mp inLine
    obtain ⟨letter', there', rfl⟩ := List.mem_map.mp onTheWay
    exact tracked.apart_of_line there there'

theorem Settled.one_place (settled : w.Settled) (tracked : w.Tracked log)
    (sorted : (asked log).Pairwise (·.sender < ·.sender)) {request : Request} {form : Form}
    {stage : Stage} (hv : w.view i = some (.miner request form, stage))
    (unfinished : ∀ answer, stage ≠ .finished answer) :
    ∃ message, request.message? = some message ∧
      (w.line log ++ (w.queued ++ w.held)).filter (·.sender = i) = [⟨i, message⟩] := by
  have alone : ∀ message, ⟨i, message⟩ ∈ w.line log ++ (w.queued ++ w.held) →
      (w.line log ++ (w.queued ++ w.held)).filter (·.sender = i) = [⟨i, message⟩] := by
    intro message there
    exact filter_sender (tracked.nodup_places sorted) there
  rcases stage_of_settled settled tracked hv with ⟨answer, finished⟩ | ⟨message, intake, rfl, -⟩ |
    ⟨rfl, message, there⟩
  · exact absurd finished (unfinished answer)
  · obtain ⟨place, -, life⟩ := tracked.life hv
    have waits : w.Waits i message := ⟨_, hv⟩
    have there : ⟨i, message⟩ ∈ w.line log :=
      (tracked.mem_line_iff (settled.begun tracked)).mpr waits
    exact ⟨message, life.writes.1 message rfl, alone message (List.mem_append_left _ there)⟩
  · exact ⟨message, ((tracked.fate hv).onTheWay message there).1,
      alone message (List.mem_append_right _ there)⟩

theorem Settled.full (settled : w.Settled) (tracked : w.Tracked log) (hi : w.intake = some intake)
    (bounded : ∀ kind, (intake.queue kind).length ≤ intake.capacity) {message : Message}
    (waits : w.Waits i message) : (intake.queue message.kind).length = intake.capacity := by
  obtain ⟨errand, hv⟩ := waits
  obtain ⟨place, -, life⟩ := tracked.life hv
  obtain ⟨request, form, rfl, -⟩ := life.miner_of_waiting
  rcases stage_of_settled settled tracked hv with ⟨answer, other⟩ |
    ⟨message', intake', same, hi', -, -, full⟩ | ⟨other, -⟩
  · cases other
  · obtain rfl := Stage.waiting.inj same
    obtain rfl := Option.some.inj (hi.symm.trans hi')
    have less := bounded message.kind
    simp only [Intake.hasRoom, decide_eq_false_iff_not] at full
    omega
  · cases other

/-! ## Order -/

/-- What was taken, what is left and whoever is in line are the miners' calls in their order, less
those that withdrew; once there is no inbox, what was taken comes first among them. -/
theorem Accounted.in_order {capacity bound : Nat} (accounted : Accounted intake bound log)
    (run : (scripted capacity).RunBy InTurn log w) (hi : w.intake = some intake)
    (quiet : intake.signalled = false) (kind : Kind) :
    ∃ rest, (ofKind kind (taken log) ++ intake.queue kind).filter (· ∈ asked log) ++ rest
        = (ofKind kind (asked log)).filter (fun letter => !withdrawn log letter.sender) ∧
      (intake.attended = true → rest = ofKind kind (w.line log)) := by
  have tracked := run.run.tracked (tracked_scripted capacity)
  have leads := entrants_prefix run
  have entered : (ofKind kind (taken log) ++ intake.queue kind).filter (· ∈ asked log)
      ++ (ofKind kind (thrown log)).filter (· ∈ asked log) = ofKind kind (entrants log) := by
    rw [← List.filter_append, accounted.fifo kind, ← ofKind_filter, tracked.asked_of_arrivals leads]
  cases attended : intake.attended with
  | true =>
    rw [accounted.unthrown attended, ofKind_nil, List.filter_nil, List.append_nil] at entered
    have lined := lined_run run ⟨intake, hi, attended, quiet⟩
    exact ⟨ofKind kind (w.line log), by rw [entered, lined.split kind], fun _ => rfl⟩
  | false =>
    obtain ⟨rest, split⟩ := leads kind
    rw [← entered, List.append_assoc] at split
    exact ⟨_, split, nofun⟩

/-! ## Callers that are gone -/

theorem deliver_eq_self {reply : Reply} (apart : ∀ errand, w.view i ≠ some (errand, .sent)) :
    w.deliver i reply = w := by
  have calls : w.calls.modify i (Call.receive reply) = w.calls := by
    apply List.ext_getElem?
    intro j
    rw [List.getElem?_modify]
    split
    · next own =>
      subst own
      cases found : w.calls[i]? with
      | none => rfl
      | some call =>
        have unsent : call.stage ≠ .sent := by
          intro sent
          exact apart call.errand (sent ▸ view_eq_some found)
        obtain ⟨errand, stage, reported⟩ := call
        cases stage with
        | sent => exact absurd rfl unsent
        | _ => rfl
    · exact Option.map_id'
  rw [deliver, calls]

theorem settle_eq_self (idle : w.move = none) (begun : w.Begun) : w.settle = w := by
  have still : w.quiesce = w := by
    unfold quiesce
    cases w.potential with
    | zero => rfl
    | succ n => simp only [World.run, idle]
  have all : w.notBegun = [] := by
    apply List.filterMap_eq_nil_iff.mpr
    rintro ⟨call, j⟩ there
    have hv := view_eq_some (List.mem_zipIdx_iff_getElem?.mp there)
    obtain ⟨errand, stage, reported⟩ := call
    cases stage with
    | made => exact absurd hv (begun j _)
    | _ => rfl
  rw [settle, still, beginCalls, all, List.foldl_nil, still]

theorem Settled.move_eq_none (settled : w.Settled) : w.move = none := by
  cases turn : w.move with
  | none => rfl
  | some next =>
    obtain ⟨e, step⟩ := move_move turn
    exact absurd step (settled _ _)

/-- What a worker's part played by hand holds, and the rate it states, make nothing happen. -/
theorem move_scripted (script' : Script) (engine : w.engine = .scripted script)
    (idle : w.move = none) : ({ w with engine := .scripted script' } : World).move = none := by
  rw [move, Option.or_eq_none_iff, Option.or_eq_none_iff] at idle ⊢
  refine ⟨?_, rfl, rfl⟩
  apply List.findSome?_eq_none_iff.mpr
  rintro ⟨call, j⟩ there
  have still : w.callMove j call = none := List.findSome?_eq_none_iff.mp idle.1 _ there
  obtain ⟨errand, stage, reported⟩ := call
  cases stage with
  | waiting message =>
    simp only [callMove] at still ⊢
    split at still
    · cases still
    next intake hi =>
    rw [hi]
    split at still
    · cases still
    next opened =>
    split at still
    · cases still
    next full => simp only [opened, full, Bool.false_eq_true, if_false]
  | replied => cases still
  | watching =>
    simp only [callMove] at still ⊢
    split at still
    · cases still
    · next quiet => exact if_neg quiet
  | producing chain due =>
    cases due with
    | false => rfl
    | true =>
      -- Without a sealer a source of tasks never waits.
      simp only [callMove, pushTask, engine] at still
      cases still
  | made | sent | finished => rfl

/-- **Whoever is gone is not missed.** In a settled state, answering or dropping a letter whose
caller went away takes the letter out of the worker's hands and changes nothing else. -/
theorem step_of_gone {held : Nat} {letter : Letter} {next : World} {errand : Errand}
    (settled : w.Settled) (tracked : w.Tracked log) (found : w.letGo held = some (letter, next))
    (gone : w.view letter.sender = some (errand, .finished .aborted))
    (hold : Bool) {action : Action}
    (h : action = .dropHeld held ∨ ∃ ruling, action = .respond held ruling) :
    (w.step hold action).2 = if hold then next else next.markReported := by
  obtain ⟨script, engine, -, rfl⟩ := letGo_eq_some found
  have apart : ∀ reply,
      ({ w with engine := .scripted { script with held := script.held.set held none } } :
        World).deliver
          letter.sender reply
        = { w with engine := .scripted { script with held := script.held.set held none } } := by
    intro reply
    apply deliver_eq_self
    intro errand' sent
    have other := gone.symm.trans sent
    cases other
  have performed : (w.perform action).2
      = { w with engine := .scripted { script with held := script.held.set held none } } := by
    rcases h with rfl | ⟨ruling, rfl⟩
    · simp only [perform, found]
      exact apart _
    · simp only [perform, respond, found]
      split <;> exact apart _
  cases hold with
  | true => rw [step_held, performed, if_pos rfl]
  | false =>
    have still := move_scripted { script with held := script.held.set held none } engine
      settled.move_eq_none
    rw [step_snd, performed, settle_eq_self still (settled.begun tracked)]
    rfl

theorem take_first (kept : w.Kept log) (hi : w.intake = some intake)
    (attended : intake.attended = true) {kind : Kind} {letter : Letter} {rest : List Letter}
    (first : intake.queue kind = letter :: rest) :
    ∃ next, w.take kind = (.ok (.letter (taken log).length letter.message), next) ∧
      (next.letGo (taken log).length).map Prod.fst = some letter := by
  obtain ⟨script, engine, length, -⟩ := kept
  have inbox : w.inbox? = some (intake, script) := by simp [inbox?, engine, hi, attended]
  have taken : intake.take kind = some (letter, intake.setQueue rest kind) := by
    simp [Intake.take, first]
  simp only [World.take, inbox, taken, ← length]
  exact ⟨_, rfl, by simp [letGo]⟩

/-! ## Settled states -/

/-- What a settled state says about the messages of calls, with its log and channels, while the exit
signal is not given. -/
structure Delivered (w : World) (log : List Event) (intake : Intake) (capacity : Nat) : Prop where
  /-- The letters asked for are those of the miners' calls, in the order of the calls. -/
  asks : ∀ letter, letter ∈ asked log ↔ ∃ request form stage,
    w.view letter.sender = some (.miner request form, stage) ∧
    request.message? = some letter.message
  sorted : (asked log).Pairwise (·.sender < ·.sender)
  /-- Exactly those are withdrawn whose callers went away before they came into a channel. -/
  withdraws : ∀ letter ∈ asked log, withdrawn log letter.sender = true ↔
    (∃ errand, w.view letter.sender = some (errand, .finished .aborted)) ∧ letter ∉ arrivals log
  /-- The message of an unfinished call waits for room, or is in a channel, or is held. -/
  one_place : ∀ i request form stage, w.view i = some (.miner request form, stage) →
    (∀ answer, stage ≠ .finished answer) → ∃ message, request.message? = some message ∧
      (w.line log ++ (w.queued ++ w.held)).filter (·.sender = i) = [⟨i, message⟩]
  in_line : ∀ letter, letter ∈ w.line log ↔ w.Waits letter.sender letter.message
  in_channel : ∀ letter, letter ∈ w.queued ↔ letter ∈ intake.queue letter.kind
  filed : ∀ kind, ∀ letter ∈ intake.queue kind, letter.kind = kind
  bounded : ∀ kind, (intake.queue kind).length ≤ capacity
  /-- Whoever waits for room finds the channel full. -/
  full : ∀ i message, w.Waits i message → (intake.queue message.kind).length = capacity
  /-- What came into a channel was taken or is still there, in this order, unless it went away with
  the inbox. -/
  fifo : ∀ kind, ofKind kind (taken log) ++ intake.queue kind ++ ofKind kind (thrown log)
    = ofKind kind (arrivals log)
  unthrown : intake.attended = true → thrown log = []
  /-- The messages of calls are taken in the order of the calls, and none is left out but those that
  were withdrawn. -/
  in_order : ∀ kind, ∃ rest,
    (ofKind kind (taken log) ++ intake.queue kind).filter (· ∈ asked log) ++ rest
        = (ofKind kind (asked log)).filter (fun letter => !withdrawn log letter.sender) ∧
      (intake.attended = true → rest = ofKind kind (w.line log))
  /-- The next to be taken is the first in its channel, whether its caller is still there or not. -/
  next : ∀ kind letter rest, intake.attended = true → intake.queue kind = letter :: rest →
    ∃ w', w.take kind = (.ok (.letter (taken log).length letter.message), w') ∧
      (w'.letGo (taken log).length).map Prod.fst = some letter
  /-- Answering or dropping the letter of a caller that is gone concerns nobody. -/
  harmless : ∀ held letter w' errand, w.letGo held = some (letter, w') →
    w.view letter.sender = some (errand, .finished .aborted) → ∀ hold action,
      (action = .dropHeld held ∨ ∃ ruling, action = .respond held ruling) →
        (w.step hold action).2.intake = w.intake ∧ ∀ j, (w.step hold action).2.view j = w.view j

theorem delivered_of_settled {capacity : Nat} (run : (scripted capacity).RunBy InTurn log w)
    (settled : w.Settled) (quiet : w.isSignalled = false) :
    ∃ intake, w.intake = some intake ∧ w.Delivered log intake (max capacity 1) := by
  have tracked := run.run.tracked (tracked_scripted capacity)
  have sorted := sorted_asked run.run (tracked_scripted capacity)
  obtain ⟨intake, hi, accounted⟩ := accounted_run run.run
  have orderly := accounted.orderly
  refine ⟨intake, hi, ?_⟩
  constructor
  case asks =>
    intro letter
    constructor
    · exact tracked.view_of_asked
    · rintro ⟨request, form, stage, hv, hm⟩
      exact tracked.asked_of_view hv hm
  case sorted => exact sorted
  case withdraws => exact fun letter asks => tracked.withdrawn_iff asks
  case one_place =>
    intro i request form stage hv unfinished
    exact settled.one_place tracked sorted hv unfinished
  case in_line => exact fun letter => tracked.mem_line_iff (settled.begun tracked)
  case in_channel =>
    intro letter
    rw [queued_eq hi, Intake.mem_letters]
    constructor
    · rintro ⟨kind, there⟩
      exact orderly.filed kind letter there ▸ there
    · exact fun there => ⟨_, there⟩
  case filed => exact orderly.filed
  case bounded => exact accounted.capacity_eq ▸ orderly.bounded
  case full =>
    intro i message waits
    exact (settled.full tracked hi orderly.bounded waits).trans accounted.capacity_eq
  case fifo => exact accounted.fifo
  case unthrown => exact accounted.unthrown
  case in_order => exact accounted.in_order run hi ((isSignalled_eq hi).symm.trans quiet)
  case next =>
    intro kind letter rest attended first
    exact take_first (kept_scripted run.run) hi attended first
  case harmless =>
    intro held letter w' errand found gone hold action h
    rw [step_of_gone settled tracked found gone hold h]
    obtain ⟨script, -, -, rfl⟩ := letGo_eq_some found
    cases hold with
    | true => exact ⟨rfl, fun _ => rfl⟩
    | false => exact ⟨rfl, fun j => view_markReported _ j⟩

/-- **Nothing is lost or reordered on the way to the worker.** A session over a worker's part played
by hand is a run in turn, and has settled unless its last action is held back; and every settled
state of every run in turn accounts for the messages of all calls as long as the exit signal is not
given. -/
theorem nothing_lost_or_reordered (capacity : Nat) :
    (∀ actions, ∃ log,
      (scripted capacity).RunBy InTurn log ((scripted capacity).settle.after actions) ∧
        (∀ i, .aborted i ∈ log → Action.abort i ∈ actions.map Prod.snd) ∧
        ((∀ action, actions.getLast? ≠ some (true, action)) →
          ((scripted capacity).settle.after actions).Settled)) ∧
      ∀ log w, (scripted capacity).RunBy InTurn log w → w.Settled → w.isSignalled = false →
        ∃ intake, w.intake = some intake ∧ w.Delivered log intake (max capacity 1) := by
  constructor
  · intro actions
    obtain ⟨log, run, aborted⟩ := inTurn_session (scripted capacity) actions
    exact ⟨log, run, aborted,
      settled_session (sound_scripted capacity) (tracked_scripted capacity) actions⟩
  · intro log w run settled quiet
    exact delivered_of_settled run settled quiet

/-- Three callers ask for work where there is room for one. The first is taken, and at the same
instant the second goes away: the room is the third one's. -/
theorem nothing_lost_or_reordered_crowded :
    let actions := [(true, .request .getWork), (true, .request .getWork),
      (false, .request .getWork), (true, .take .fetch), (false, .abort 1)]
    let w := (scripted 0).settle.after actions
    ∃ log intake, w.Delivered log intake 1 ∧ w.intake = some intake ∧ w.held = [⟨0, .fetch⟩] ∧
      intake.queue .fetch = [⟨2, .fetch⟩] ∧
      w.view 1 = some (.miner .getWork .direct, .finished .aborted) := by
  intro actions w
  obtain ⟨sessions, runs⟩ := nothing_lost_or_reordered 0
  obtain ⟨log, run, -, settles⟩ := sessions actions
  obtain ⟨intake, hi, delivered⟩ := runs log w run (settles (by simp [actions])) rfl
  have queue : intake.queue .fetch = [⟨2, .fetch⟩] := by
    rw [← Option.some.inj hi]
    rfl
  exact ⟨log, intake, delivered, hi, rfl, queue, rfl⟩

end MinerGateway.World
