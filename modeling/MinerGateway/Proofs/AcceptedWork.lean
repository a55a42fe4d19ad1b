import MinerGateway.Proofs.OwnReply

/-!
What a miner is told about a solution agrees with what leaves the engine.

An acceptance is a submission that the worker answered with Ok. Each puts exactly one value on the
channel of accepted solutions (`carries_puts`), the consumer finds what was put there in that order
and loses nothing when the worker's loop ends (`receipts_append_queue`, `play_receive`), and a miner
is told `true` if and only if its submission is among the acceptances (`accepted_iff`).

What is proved (`told_as_accepted`), along every run on a started sealer:
  1. the values put on the channel are those of the acceptances, one each and in the same order, and
     each carries the nonce, the digest and the extra nonce that were submitted and the number and
     the hash of the task;
  2. nobody's submission is accepted twice, and a call that has an answer was told `true` exactly if
     its own was accepted, now or in any continuation;
  3. what was put and not received is in the channel, in order, and can be received also after the
     loop has ended.

A caller may go away before it is told: its solution may be accepted all the same, and then it comes
out like any other.
-/

namespace MinerGateway

/-- A submission that was accepted, with its sender and the engine at that time. -/
structure Acceptance where
  sender : Nat
  before : Sealer
  submission : Submission

def Event.acceptances : Event → List Acceptance
  | .served _ ⟨sender, .submission s⟩ before _ (.verdict (.ok ())) => [⟨sender, before, s⟩]
  | _ => []

/-- What an event puts on the channel of accepted solutions. -/
def Event.puts : Event → List SealedWork
  | .served _ _ before after _ => after.outbox.queue.drop before.outbox.queue.length
  | _ => []

/-- What the consumer receives at an event. -/
def Event.receipts : Event → List SealedWork
  | .received work => [work]
  | _ => []

/-- The submissions that the worker answered with Ok, in the order in which it handled them. -/
def acceptances (log : List Event) : List Acceptance := log.flatMap Event.acceptances

/-- Everything that was ever put on the channel of accepted solutions. -/
def puts (log : List Event) : List SealedWork := log.flatMap Event.puts

def receipts (log : List Event) : List SealedWork := log.flatMap Event.receipts

/-- The value belongs to the submission and to the task that was pending under its hash. -/
def Acceptance.Carries (a : Acceptance) (work : SealedWork) : Prop :=
  ∃ task, a.before.ledger.find? a.submission.hash = some task ∧ work.number = task.number ∧
    work.sealHash = a.submission.hash ∧ work.nonce = a.submission.nonce ∧
    work.mixDigest = a.submission.mixDigest ∧ work.extraNonce = a.submission.extraNonce

/-! ## One submission -/

theorem Ledger.judge_eq_ok {ledger : Ledger} {threshold : UInt64} {verifier : Verifier}
    {s : Submission} {task : Task} (h : ledger.judge threshold verifier s = .ok task) :
    ledger.find? s.hash = some task := by
  unfold judge at h
  split at h
  · next current found _ hfound =>
    rw [hfound]
    cases hv : verifier found s.nonce s.mixDigest with
    | error error => simp [hv, bind, Except.bind] at h
    | ok =>
      simp only [hv, bind, Except.bind] at h
      split at h
      · cases h
      · rw [Except.ok.inj h]
  · cases h

theorem Outbox.offer_eq_ok {outbox outbox' : Outbox} {work : SealedWork}
    (h : outbox.offer work = .ok outbox') :
    outbox.attended = true ∧ outbox' = { outbox with queue := outbox.queue ++ [work] } := by
  unfold offer at h
  split at h
  · cases h
  next attended =>
  split at h
  · cases h
  · exact ⟨by simpa using attended, (Except.ok.inj h).symm⟩

theorem Ledger.submit_eq_ok {ledger : Ledger} {threshold : UInt64} {verifier : Verifier}
    {outbox outbox' : Outbox} {s : Submission}
    (h : ledger.submit threshold verifier outbox s = .ok outbox') :
    ∃ task, ledger.find? s.hash = some task ∧ outbox.attended = true ∧
      outbox' = { outbox with queue := outbox.queue ++ [task.sealedBy s] } := by
  unfold submit at h
  cases hj : ledger.judge threshold verifier s with
  | error error => simp [hj, bind, Except.bind] at h
  | ok task =>
    simp only [hj, bind, Except.bind] at h
    obtain ⟨attended, rfl⟩ := Outbox.offer_eq_ok h
    exact ⟨task, judge_eq_ok hj, attended, rfl⟩

/-- A served message is an accepted submission, or it leaves the channel alone and is not answered
with Ok as a submission is. -/
theorem Sealer.serve_cases (sealer : Sealer) (now : Nat) (message : Message) :
    (∃ s task, message = .submission s ∧ (sealer.serve now message).2 = .verdict (.ok ()) ∧
        sealer.ledger.find? s.hash = some task ∧ sealer.outbox.attended = true ∧
        (sealer.serve now message).1 = { sealer with
          outbox := { sealer.outbox with queue := sealer.outbox.queue ++ [task.sealedBy s] } }) ∨
      ((sealer.serve now message).2 ≠ .verdict (.ok ()) ∧
        (sealer.serve now message).1.outbox = sealer.outbox) := by
  cases message with
  | fetch => exact .inr ⟨by simp [serve], rfl⟩
  | report r => exact .inr ⟨by simp [serve], rfl⟩
  | submission s =>
    cases hs : sealer.ledger.submit sealer.settings.staleThreshold sealer.verifier sealer.outbox s
      with
    | error error => exact .inr (by simp [serve, hs])
    | ok outbox =>
      obtain ⟨task, found, attended, rfl⟩ := Ledger.submit_eq_ok hs
      exact .inl ⟨s, task, rfl, by simp [serve, hs], found, attended, by simp [serve, hs]⟩

/-! ## One event -/

namespace Sealer.Takes

variable {s s' : Sealer} {e : Event}

theorem acceptances_of_ne {now : Nat} {letter : Letter} {before after : Sealer} {reply : Reply}
    (h : reply ≠ .verdict (.ok ())) :
    (Event.served now letter before after reply).acceptances = [] := by
  unfold Event.acceptances
  split
  · next same =>
    obtain ⟨-, -, -, -, rfl⟩ := Event.served.inj same
    exact absurd rfl h
  · rfl

/-- What an event puts on the channel belongs to the acceptance that it is. -/
theorem carries (h : s.Takes e s') : List.Forall₂ Acceptance.Carries e.acceptances e.puts := by
  cases h with
  | @served now letter =>
    obtain ⟨sender, message⟩ := letter
    rcases s.serve_cases now message with ⟨sub, task, rfl, reply, found, -, next⟩ | ⟨reply, outbox⟩
    · rw [reply, next]
      simp only [Event.acceptances, Event.puts, List.drop_left]
      exact .cons ⟨task, found, rfl, rfl, rfl, rfl, rfl⟩ .nil
    · rw [acceptances_of_ne reply]
      simp only [Event.puts, outbox, List.drop_length]
      exact .nil
  | @apart e h =>
    cases e with
    | served => cases h
    | _ => exact .nil
  | _ => exact .nil

/-- An event that leaves the consumer in place moves one value from the front of the channel to the
consumer, or puts what it puts at the end. -/
theorem queue (h : s.Takes e s') (attended : s'.outbox.attended = true) :
    s.outbox.attended = true ∧ e.receipts ++ s'.outbox.queue = s.outbox.queue ++ e.puts := by
  cases h with
  | @served now letter =>
    rcases s.serve_cases now letter.message with ⟨sub, task, -, -, -, hs, next⟩ | ⟨-, outbox⟩
    · rw [next]
      refine ⟨hs, ?_⟩
      simp only [Event.puts, Event.receipts, List.drop_left, List.nil_append]
    · rw [outbox] at attended
      refine ⟨attended, ?_⟩
      simp only [Event.puts, Event.receipts, outbox, List.drop_length, List.nil_append,
        List.append_nil]
  | @received work outbox hs h =>
    refine ⟨hs, ?_⟩
    unfold Outbox.receive at h
    split at h
    · cases h
    · next first rest queue =>
      obtain ⟨rfl, rfl⟩ := Prod.mk.inj (Option.some.inj h)
      rw [queue]
      exact (List.append_nil _).symm
  | abandoned => cases attended
  | @apart e h =>
    refine ⟨attended, ?_⟩
    cases e with
    | served | received => cases h
    | _ => exact (List.append_nil _).symm
  | _ => exact ⟨attended, (List.append_nil _).symm⟩

/-- The replies that say Ok to a submission. -/
def oks (replies : List Reply) : Nat :=
  replies.countP fun | .verdict (.ok ()) => true | _ => false

theorem count_sender (h : s.Takes e s') (i : Nat) :
    (e.acceptances.map Acceptance.sender).count i = oks (replies (e.happenings i)) := by
  cases h with
  | @served now letter =>
    obtain ⟨sender, message⟩ := letter
    rcases s.serve_cases now message with ⟨sub, task, rfl, reply, -, -, -⟩ | ⟨reply, -⟩
    · rw [reply]
      by_cases hi : sender = i <;> simp [Event.acceptances, Event.happenings, replies, oks, hi]
    · rw [acceptances_of_ne reply]
      by_cases hi : sender = i
      · have other : oks [(s.serve now message).2] = 0 := by
          apply List.countP_eq_zero.mpr
          intro reply' hm
          rw [List.mem_singleton.mp hm]
          split
          · next same => exact absurd same reply
          · exact Bool.false_ne_true
        simpa [Event.happenings, replies, hi] using other.symm
      · simp [Event.happenings, replies, oks, hi]
  | @ended lost =>
    simp only [Event.acceptances, Event.happenings, List.map_nil, List.count_nil]
    -- Whoever loses the reply is told so, and not Ok.
    symm
    apply List.countP_eq_zero.mpr
    intro reply hr
    obtain ⟨happening, hh, hr⟩ := List.mem_filterMap.mp hr
    obtain ⟨letter, -, rfl⟩ := List.mem_map.mp hh
    obtain rfl := Option.some.inj hr
    exact Bool.false_ne_true
  | @apart e h =>
    have none : e.acceptances = [] := by
      cases e with
      | served => cases h
      | _ => rfl
    rw [none, Event.replies_of_apart h]
    rfl
  | told =>
    simp only [Event.happenings]
    split <;> rfl
  | _ => rfl

end Sealer.Takes

/-! ## Whole runs -/

namespace Sealer.Passes

variable {s s' : Sealer} {log : List Event}

/-- **Each acceptance put one value on the channel, and nothing else did.** -/
theorem carries_puts (h : s.Passes log s') :
    List.Forall₂ Acceptance.Carries (acceptances log) (puts log) := by
  induction h with
  | refl => exact .nil
  | next _ last ih =>
    rw [acceptances, puts, List.flatMap_append, List.flatMap_append, List.flatMap_singleton,
      List.flatMap_singleton]
    exact List.rel_append ih last.carries

/-- **The consumer has received, or will find, what was put on the channel, in that order.** -/
theorem receipts_append_queue (h : s.Passes log s') (empty : s.outbox.queue = [])
    (attended : s'.outbox.attended = true) : receipts log ++ s'.outbox.queue = puts log := by
  induction h with
  | refl => exact empty
  | @next log s' e s'' _ last ih =>
    obtain ⟨before, queue⟩ := last.queue attended
    calc receipts (log ++ [e]) ++ s''.outbox.queue
        = receipts log ++ (e.receipts ++ s''.outbox.queue) := by
          rw [receipts, List.flatMap_append, List.flatMap_singleton, List.append_assoc, receipts]
      _ = receipts log ++ (s'.outbox.queue ++ e.puts) := by rw [queue]
      _ = puts log ++ e.puts := by rw [← List.append_assoc, ih before]
      _ = puts (log ++ [e]) := by
          rw [puts, puts, List.flatMap_append, List.flatMap_singleton]

theorem count_sender (h : s.Passes log s') (i : Nat) :
    ((acceptances log).map Acceptance.sender).count i
      = Sealer.Takes.oks (replies (history i log)) := by
  induction h with
  | refl => rfl
  | next _ last ih =>
    rw [acceptances, List.flatMap_append, List.flatMap_singleton,
      List.map_append, List.count_append,
      history_append, history_singleton, replies_append, Sealer.Takes.oks, List.countP_append]
    exact congrArg₂ (· + ·) ih (last.count_sender i)

end Sealer.Passes

theorem mem_acceptances {a : Acceptance} {log : List Event} (h : a ∈ acceptances log) :
    .replied (.submission a.submission) (.verdict (.ok ())) ∈ history a.sender log := by
  obtain ⟨e, he, h⟩ := List.mem_flatMap.mp h
  refine List.mem_flatMap.mpr ⟨e, he, ?_⟩
  unfold Event.acceptances at h
  split at h
  · obtain rfl := List.mem_singleton.mp h
    simp [Event.happenings]
  · cases h

namespace World

variable {w w' : World} {e : Event} {log : List Event}

theorem Tracked.replies_le (h : w.Tracked log) (i : Nat) :
    (replies (history i log)).length ≤ 1 := by
  obtain ⟨place, -, follows⟩ := h.calls i
  cases hv : w.view i with
  | none =>
    rw [hv] at follows
    rw [follows.1]
    exact Nat.zero_le 1
  | some v =>
    rw [hv] at follows
    exact (Life.posted_of follows).bounds.2.2

theorem nodup_senders {settings : EngineSettings} {verifier : Verifier}
    (run : (started settings verifier).Run log w) :
    ((acceptances log).map Acceptance.sender).Nodup := by
  obtain ⟨s, -, passes⟩ := run.passes_start
  apply List.nodup_iff_count_le_one.mpr
  intro i
  calc ((acceptances log).map Acceptance.sender).count i
      = Sealer.Takes.oks (replies (history i log)) := passes.count_sender i
    _ ≤ (replies (history i log)).length := List.countP_le_length
    _ ≤ 1 := (run.tracked (tracked_started ..)).replies_le i

/-- One of the acceptances is a caller's own exactly if it was replied to with Ok. -/
theorem mem_senders_iff {settings : EngineSettings} {verifier : Verifier}
    (run : (started settings verifier).Run log w) (i : Nat) :
    i ∈ (acceptances log).map Acceptance.sender ↔
    replies (history i log) = [.verdict (.ok ())] := by
  obtain ⟨s, -, passes⟩ := run.passes_start
  have le := (run.tracked (tracked_started ..)).replies_le i
  rw [← List.count_pos_iff, passes.count_sender i]
  generalize replies (history i log) = replied at le ⊢
  match replied, le with
  | [], _ => simp [Sealer.Takes.oks]
  | [reply], _ =>
    unfold Sealer.Takes.oks
    constructor
    · intro h
      obtain ⟨reply', hm, ok⟩ := List.countP_pos_iff.mp h
      obtain rfl := List.mem_singleton.mp hm
      split at ok
      · rfl
      · cases ok
    · rintro ⟨rfl, -⟩
      exact Nat.zero_lt_one

/-- **A miner is told `true` exactly if its own submission is accepted**, now or ever. -/
theorem accepted_iff {settings : EngineSettings} {verifier : Verifier}
    (run : (started settings verifier).Run log w) {i : Nat} {nonce : Nonce} {hash digest : Hash}
    {extraNonce : Option String} {form : Form} {answer : Answer}
    (hv : w.view i = some (.miner (.submitWork nonce hash digest extraNonce) form,
      .finished answer)) :
    (answer = .aborted ∧ .aborted i ∈ log) ∨
      ∃ yes, answer = form.tell (.accepted yes) ∧
        ∀ more w', w.Run more w' →
          (yes = true ↔ i ∈ (acceptances (log ++ more)).map Acceptance.sender) := by
  have tracked := run.tracked (tracked_started ..)
  rcases (tracked.fate hv).told answer rfl with gone | ⟨outcome, told, deserved⟩
  · exact .inl gone
  refine .inr ?_
  cases outcome with
  | work result => cases deserved
  | accepted yes =>
    refine ⟨yes, told, ?_⟩
    intro more w' run'
    -- The answer is still there at the end of the longer run, and deserved there too.
    obtain ⟨stage, hv', final⟩ := tracked.view_run run' hv
    obtain rfl := final answer rfl
    have tracked' := (run.trans run').tracked (tracked_started ..)
    rw [mem_senders_iff (run.trans run')]
    rcases (tracked'.fate hv').told answer rfl with ⟨gone, -⟩ | ⟨outcome, told', deserved'⟩
    · exact absurd (told.symm.trans gone) (form.tell_ne_aborted _)
    · rw [← Form.tell_injective (told.symm.trans told')] at deserved'
      exact deserved'

theorem own_submission {settings : EngineSettings} {verifier : Verifier}
    (run : (started settings verifier).Run log w) {a : Acceptance} (h : a ∈ acceptances log)
    {nonce : Nonce} {hash digest : Hash} {extraNonce : Option String} {form : Form} {stage : Stage}
    (hv : w.view a.sender = some (.miner (.submitWork nonce hash digest extraNonce) form, stage)) :
    a.submission.nonce = nonce ∧ a.submission.hash = hash ∧ a.submission.mixDigest = digest ∧
      Request.decodeExtraNonce extraNonce = .ok a.submission.extraNonce := by
  obtain ⟨place, -, life⟩ := (run.tracked (tracked_started settings verifier)).life hv
  have own := life.writes.2 _ (life.mem_entries_of_replied (mem_acceptances h))
  simp only [Errand.Writes, Request.message?] at own
  split at own
  · next bytes decoded =>
    rw [← Message.submission.inj (Option.some.inj own)]
    exact ⟨rfl, rfl, rfl, decoded⟩
  · cases own

/-! ## The consumer after the end of the loop -/

theorem engine_of_move {s : Sealer} (step : Move w e w') (engine : w.engine = .sealer s)
    (idle : s.loop ≠ .running) : w'.engine = .sealer s := by
  cases step with
  | advance | enter | release => exact engine
  | produce _ _ _ pushed =>
    obtain ⟨s', engine', running, -, -⟩ := pushTask_eq_ok pushed
    obtain rfl := Engine.sealer.inj (engine.symm.trans engine')
    exact absurd running idle
  | quit working | handle working | serve working | clean working =>
    obtain rfl := Engine.sealer.inj (engine.symm.trans working.engine)
    exact absurd working.loop idle

theorem engine_of_moves {s : Sealer} {n : Nat} (moves : Moves n w w')
    (engine : w.engine = .sealer s) (idle : s.loop ≠ .running) : w'.engine = .sealer s := by
  induction moves with
  | zero => exact engine
  | succ step _ ih => exact ih (engine_of_move step engine idle)

/-- **What was accepted before the loop ended can be received after it, in order.** -/
theorem play_receive {s : Sealer} {holds : List Bool} (engine : w.engine = .sealer s)
    (idle : s.loop ≠ .running) (attended : s.outbox.attended = true)
    (length : holds.length = s.outbox.queue.length) :
    (w.play (holds.map fun hold => (hold, .receiveResult))).map Report.result
      = s.outbox.queue.map fun work => .ok (.result work) := by
  -- Each receipt takes the front of the channel; settling in between changes nothing of it.
  induction holds generalizing w s with
  | nil =>
    rw [List.eq_nil_of_length_eq_zero length.symm]
    rfl
  | cons hold holds ih =>
    cases queue : s.outbox.queue with
    | nil => simp [queue] at length
    | cons work rest =>
      have received : w.receiveResult = (.ok (.result work),
          { w with engine := .sealer { s with outbox := { s.outbox with queue := rest } } }) := by
        simp [receiveResult, engine, attended, Outbox.receive, queue]
      have result : (w.step hold .receiveResult).1.result = .ok (.result work) := by
        simp only [step, perform, received]
      have next : (w.step hold .receiveResult).2.engine
          = .sealer { s with outbox := { s.outbox with queue := rest } } := by
        cases hold with
        | true => simp [step, perform, received]
        | false =>
          obtain ⟨n, moves⟩ := moves_settle { w with
            engine := .sealer { s with outbox := { s.outbox with queue := rest } } }
          have settled := engine_of_moves moves rfl idle
          simpa [step, perform, received, markReported] using settled
      have rest' := ih next idle attended (by simpa [queue] using length)
      exact congrArg₂ List.cons result rest'

/-- **The boolean told to a miner agrees with the channel of accepted solutions.** -/
theorem told_as_accepted (settings : EngineSettings) (verifier : Verifier) :
    (∀ actions, ∃ log,
        (started settings verifier).Run log ((started settings verifier).settle.after actions) ∧
          ∀ i, .aborted i ∈ log → Action.abort i ∈ actions.map Prod.snd) ∧
      ∀ log w, (started settings verifier).Run log w →
        List.Forall₂ Acceptance.Carries (acceptances log) (puts log) ∧
        ((acceptances log).map Acceptance.sender).Nodup ∧
        (∀ s, w.engine = .sealer s → s.outbox.attended = true →
          receipts log ++ s.outbox.queue = puts log ∧
            (s.loop ≠ .running → ∀ holds : List Bool, holds.length = s.outbox.queue.length →
              (w.play (holds.map fun hold => (hold, .receiveResult))).map Report.result
                = s.outbox.queue.map fun work => .ok (.result work))) ∧
        ∀ i nonce hash digest extraNonce form stage,
          w.view i = some (.miner (.submitWork nonce hash digest extraNonce) form, stage) →
          (w.Settled → ∃ answer, stage = .finished answer) ∧
          (∀ a ∈ acceptances log, a.sender = i →
            a.submission.nonce = nonce ∧ a.submission.hash = hash ∧
            a.submission.mixDigest = digest ∧
              Request.decodeExtraNonce extraNonce = .ok a.submission.extraNonce) ∧
          ∀ answer, stage = .finished answer →
            (answer = .aborted ∧ .aborted i ∈ log) ∨
              ∃ yes, answer = form.tell (.accepted yes) ∧
                ∀ more w', w.Run more w' →
                  (yes = true ↔ i ∈ (acceptances (log ++ more)).map Acceptance.sender) := by
  refine ⟨exists_run_session _, ?_⟩
  intro log w run
  obtain ⟨s, engine, passes⟩ := run.passes_start
  refine ⟨passes.carries_puts, nodup_senders run, ?_, ?_⟩
  · intro s' engine' attended
    obtain rfl := Engine.sealer.inj (engine.symm.trans engine')
    refine ⟨passes.receipts_append_queue rfl attended, ?_⟩
    intro idle holds length
    exact play_receive engine idle attended length
  · intro i nonce hash digest extraNonce form stage hv
    refine ⟨?_, ?_, ?_⟩
    · intro settled
      have sound : w.Sound := sound_run run (sound_started ..)
      exact finished_of_settled settled sound (run.tracked (tracked_started ..)) engine hv
    · intro a ha own
      subst own
      exact own_submission run ha hv
    · intro answer finished
      subst finished
      exact accepted_iff run hv

/-- A solution is submitted, and the engine is shut down right after. -/
def lastMinute : List (Bool × Action) :=
  [(false, .push ⟨.filled 32 1, 5, .empty⟩),
    (false, .request (.submitWork (.filled 8 2) (.filled 32 1) (.filled 32 1) none)),
    (false, .shutdown)]

theorem told_as_accepted_lastMinute :
    ∃ log, (started {} .acceptAll).Run log ((started {} .acceptAll).settle.after lastMinute) ∧
      0 ∈ (acceptances log).map Acceptance.sender ∧
      (((started {} .acceptAll).settle.after lastMinute).play [(false, .receiveResult)]).map
        Report.result = [.ok (.result ⟨.filled 32 1, 5, .filled 8 2, .filled 32 1, none⟩)] := by
  obtain ⟨sessions, runs⟩ := told_as_accepted {} .acceptAll
  obtain ⟨log, run, -⟩ := sessions lastMinute
  obtain ⟨-, -, consumer, callers⟩ := runs log _ run
  have answered : ((started {} .acceptAll).settle.after lastMinute).view 0 = some
      (.miner (.submitWork (.filled 8 2) (.filled 32 1) (.filled 32 1) none) .direct,
        .finished (.outcome (.accepted true))) := rfl
  have ended : ((started {} .acceptAll).settle.after lastMinute).engine = .sealer
      { settings := {}, verifier := .acceptAll
        ledger := { current := some ⟨.filled 32 1, 5, .empty⟩,
                    pending := [⟨.filled 32 1, 5, .empty⟩] }
        outbox := { capacity := 16, queue := [⟨.filled 32 1, 5, .filled 8 2, .filled 32 1, none⟩] }
        loop := .ended, cleanupDue := false, joined := true } := rfl
  obtain ⟨-, -, told⟩ := callers 0 _ _ _ none .direct _ answered
  refine ⟨log, run, ?_, ?_⟩
  · rcases told _ rfl with ⟨gone, -⟩ | ⟨yes, same, iff⟩
    · cases gone
    · obtain rfl : true = yes := by simpa [Form.tell] using same
      exact List.append_nil log ▸ (iff [] _ .refl).mp rfl
  · exact (consumer _ ended rfl).2 (by decide) [false] rfl

end World

end MinerGateway
