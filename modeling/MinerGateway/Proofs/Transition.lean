import MinerGateway.Gateway.Session

/-!
The gateway as a labelled transition system.

`Move` lists what can happen by itself at one instant, `Act` what is done from outside; `Step` is
either, and `World.Run` chains steps and keeps the log of their events. The calls and the worker may
take their turns in any order here. `exists_move_iff` says that the moves are exactly those that the
calls, the worker and the end of an engine make on their own, so the fixed order of turns of
`World.move` is one order among the runs.

Correspondence (gateway ↔ step):
  a caller is refused, learns its reply, begins to wait ↔ `Move.advance`, with `Advances`
  a caller gets room and hands over its letter          ↔ `Move.enter`
  the rounds of the worker's loop                       ↔ `Move.handle`, `Move.serve`, `Move.clean`
  the end of the loop on the exit signal                ↔ `Move.quit`
  a miner calls, or goes away                           ↔ `Act.make`, `Act.abort`
  a worker's part that is played by hand                ↔ `Act.take`, `Act.resolve`, `Act.drop`
  a timer goes off, and time passes                     ↔ `Act.ring`, `Act.pass`

What is assumed of the gateway is said in these constructors and nowhere else: a step is atomic, a
channel gives out its oldest letter, a letter that is thrown away wakes its sender, and nobody but
the worker touches its tasks. In `Act.pass` time may pass at any moment and to any other; what needs
a clock that behaves restricts itself to runs whose steps are punctual.
-/

namespace MinerGateway

/-- Something that happened. -/
inductive Event where
  /-- A call was made. -/
  | made (call : Nat) (errand : Errand)
  /-- A call came to wait for something other than a reply. -/
  | begun (call : Nat)
  /-- The letter of a call went into its channel. -/
  | entered (letter : Letter)
  /-- A letter was put into its channel without waiting, by a call made for it. -/
  | posted (letter : Letter)
  | finished (call : Nat) (errand : Errand) (answer : Answer)
  /-- A caller went away before it had its answer. -/
  | aborted (call : Nat)
  /-- A task was accepted for the worker. -/
  | pushed (task : Task)
  /-- The worker took up a task. -/
  | handled (task : Task)
  /-- The worker answered a letter, with its state before and after. -/
  | served (now : Nat) (letter : Letter) (before after : Sealer) (reply : Reply)
  | cleaned (now : Nat)
  /-- The worker's loop ended and lost the letters in the channels. -/
  | ended (lost : List Letter)
  /-- A letter was taken by hand. -/
  | taken (letter : Letter)
  /-- A letter that was held by hand was answered, or thrown away with the reply `lost`. -/
  | resolved (letter : Letter) (reply : Reply)
  /-- The inbox played by hand went away with the letters in it. -/
  | dropped (lost : List Letter)
  | signalled
  /-- The aggregate hash rate was read directly. -/
  | read (rate : UInt64)
  /-- The consumer received an accepted solution. -/
  | received (work : SealedWork)
  /-- The consumer went away. -/
  | abandoned
  /-- The answers so far were reported. -/
  | reported
  /-- Anything else: time passes, a timer goes off, an owner lets go. -/
  | other

/-- The event of a call that comes to a new stage. -/
def Event.ofStage (call : Nat) (errand : Errand) : Stage → Event
  | .finished answer => .finished call errand answer
  | _ => .begun call

/-- How a call of this errand comes from one stage to the next without touching anything else. -/
inductive Advances (w : World) : Errand → Stage → Stage → Prop where
  | unsupported {request form} (h : w.intake = none) :
    Advances w (.miner request form) .made
      (.finished (form.tell (request.failure .notSupported)))
  | malformed {request form intake} (h : w.intake = some intake) (hm : request.message? = none) :
    Advances w (.miner request form) .made (.finished (form.tell (.accepted false)))
  | wait {request form intake message} (h : w.intake = some intake)
      (hm : request.message? = some message) :
    Advances w (.miner request form) .made (.waiting message)
  | read {id} : Advances w (.readHashrate id) .made
      (.finished (.response ⟨id, .ok (.hashrate w.engine.hashrate)⟩))
  | known {answer} : Advances w (.known answer) .made (.finished answer)
  | watch : Advances w .watchExit .made .watching
  | broken : Advances w (.devnet 0) .made (.finished .panicked)
  | source {interval} (h : interval ≠ 0) :
    Advances w (.devnet interval) .made (.producing Devnet.Chain.start true)
  | refused {errand message}
      (h : ∀ intake, w.intake = some intake → (intake.signalled || !intake.attended) = true) :
    Advances w errand (.waiting message) (.finished (errand.answer .lost))
  | learn {errand reply} : Advances w errand (.replied reply) (.finished (errand.answer reply))
  | exited {errand} (h : w.isSignalled = true) : Advances w errand .watching (.finished .exited)
  | stopped {errand chain}
      (h : ∀ interval w', errand = .devnet interval →
        w.pushTask (chain.task Sha256.digest) ≠ .ok w') :
    Advances w errand (.producing chain true) (.finished .sourceStopped)

/-- A call that has handed over its letter, or is finished, does nothing on its own. -/
theorem Advances.stage_ne {w : World} {errand : Errand} {stage stage' : Stage}
    (h : Advances w errand stage stage') : stage ≠ .sent ∧ ∀ answer, stage ≠ .finished answer := by
  cases h <;> simp

/-- The worker of a sealer runs its loop behind these channels. -/
structure World.Working (w : World) (sealer : Sealer) (intake : Intake) : Prop where
  engine : w.engine = .sealer sealer
  intake : w.intake = some intake
  loop : sealer.loop = .running

/-- What can happen by itself at one instant. -/
inductive Move : World → Event → World → Prop where
  | advance {w : World} {i : Nat} {call : Call} {stage : Stage} (found : w.calls[i]? = some call)
      (h : Advances w call.errand call.stage stage) :
    Move w (.ofStage i call.errand stage) (w.setStage i stage)
  | enter {w : World} {i : Nat} {call : Call} {message : Message} {intake : Intake}
      (found : w.calls[i]? = some call) (h : call.stage = .waiting message)
      (hi : w.intake = some intake) (quiet : intake.signalled = false)
      (attended : intake.attended = true) (room : intake.hasRoom message.kind 0 = true) :
    Move w (.entered ⟨i, message⟩)
      ({ w with intake := some (intake.put ⟨i, message⟩) }.setStage i .sent)
  | produce {w w' : World} {i interval : Nat} {call : Call} {chain : Devnet.Chain}
      (found : w.calls[i]? = some call) (h : call.stage = .producing chain true)
      (errand : call.errand = .devnet interval)
      (pushed : w.pushTask (chain.task Sha256.digest) = .ok w') :
    Move w (.pushed (chain.task Sha256.digest))
      ((w'.setStage i (.producing (chain.advance Sha256.digest) false)).setTimer
        (w'.now + interval) (.call i))
  | quit {w : World} {sealer : Sealer} {intake : Intake} (working : w.Working sealer intake)
      (signalled : intake.signalled = true) :
    Move w (.ended intake.letters)
      ({ w with engine := .sealer sealer.exit, intake := some intake.abandon }.lose intake.letters)
  | handle {w : World} {sealer : Sealer} {intake : Intake} {task : Task} {tasks : List Task}
      (working : w.Working sealer intake) (quiet : intake.signalled = false)
      (queue : sealer.tasks = task :: tasks) :
    Move w (.handled task)
      { w with engine := .sealer { sealer with ledger := sealer.ledger.push task, tasks } }
  | serve {w : World} {sealer : Sealer} {intake rest : Intake} {letter : Letter}
      (working : w.Working sealer intake) (quiet : intake.signalled = false)
      (queue : sealer.tasks = []) (next : intake.next = some (letter, rest)) :
    Move w (.served w.now letter sealer (sealer.serve w.now letter.message).1
        (sealer.serve w.now letter.message).2)
      ({ w with
          engine := .sealer (sealer.serve w.now letter.message).1, intake := some rest }.deliver
        letter.sender (sealer.serve w.now letter.message).2)
  | clean {w : World} {sealer : Sealer} {intake : Intake} (working : w.Working sealer intake)
      (quiet : intake.signalled = false) (queue : sealer.tasks = []) (next : intake.next = none)
      (due : sealer.cleanupDue = true) :
    Move w (.cleaned w.now)
      ({ w with
          engine := .sealer { sealer with
            ledger := sealer.ledger.cleanup sealer.settings w.now, cleanupDue := false } }.setTimer
        (w.now + sealer.settings.cleanupInterval) .worker)
  | release {w : World} (orphaned : w.isOrphaned = true) (quiet : w.isSignalled = false) :
    Move w .signalled w.signal

/-- What is done from outside, or by the clock. -/
inductive Act : World → Event → World → Prop where
  | make {w : World} {errand : Errand} (h : errand ≠ .letter) :
    Act w (.made w.calls.length errand) (w.makeCall errand).2
  | post {w : World} {intake : Intake} {message : Message} (hi : w.intake = some intake)
      (attended : intake.attended = true)
      (room : intake.hasRoom message.kind (w.waitingFor message.kind) = true) :
    Act w (.posted ⟨w.calls.length, message⟩)
      ({ (w.makeCall .letter).2 with
          intake := some (intake.put ⟨w.calls.length, message⟩) }.setStage w.calls.length .sent)
  | abort {w : World} {i : Nat} {call : Call} (found : w.calls[i]? = some call)
      (h : call.answer? = none) :
    Act w (.aborted i) (w.setStage i (.finished .aborted))
  | push {w w' : World} {task : Task} (h : w.pushTask task = .ok w') : Act w (.pushed task) w'
  | signal {w : World} : Act w .signalled w.signal
  | receive {w : World} {sealer : Sealer} {work : SealedWork} {outbox : Outbox}
      (engine : w.engine = .sealer sealer) (attended : sealer.outbox.attended = true)
      (h : sealer.outbox.receive = some (work, outbox)) :
    Act w (.received work) { w with engine := .sealer { sealer with outbox } }
  | abandon {w : World} {sealer : Sealer} (engine : w.engine = .sealer sealer) :
    Act w .abandoned
      { w with engine := .sealer { sealer with outbox := sealer.outbox.abandon } }
  | join {w : World} {sealer : Sealer} (engine : w.engine = .sealer sealer) :
    Act w .other { w with engine := .sealer { sealer with joined := true } }
  | setHashrate {w : World} {script : Script} {rate : UInt64}
      (engine : w.engine = .scripted script) :
    Act w .other { w with engine := .scripted { script with hashrate := rate } }
  | take {w : World} {intake rest : Intake} {script : Script} {kind : Kind} {letter : Letter}
      (engine : w.engine = .scripted script) (hi : w.intake = some intake)
      (h : intake.take kind = some (letter, rest)) :
    Act w (.taken letter)
      { w with
        intake := some rest
        engine := .scripted { script with held := script.held ++ [some letter] } }
  | resolve {w : World} {script : Script} {held : Nat} {letter : Letter} {reply : Reply}
      (engine : w.engine = .scripted script) (h : script.held[held]? = some (some letter))
      (fit : reply = .lost ∨ ∃ ruling : Ruling, ruling.reply? letter.message = some reply) :
    Act w (.resolved letter reply)
      ({ w with engine := .scripted { script with held := script.held.set held none } }.deliver
        letter.sender reply)
  | drop {w : World} {intake : Intake} {script : Script} (engine : w.engine = .scripted script)
      (hi : w.intake = some intake) :
    Act w (.dropped intake.letters)
      ({ w with intake := some intake.abandon }.lose intake.letters)
  | read {w : World} : Act w (.read w.engine.hashrate) w
  | detach {w : World} : Act w .other { w with attached := false }
  | ring {w : World} {target : Nat} {timer : Timer} {timers : List Timer}
      (h : World.nextTimer target w.timers = some (timer, timers)) :
    Act w .other ({ w with now := timer.due, timers }.fire timer.owner)
  | pass {w : World} {now : Nat} : Act w .other { w with now }
  | report {w : World} : Act w .reported w.markReported

/-- A step of the gateway. -/
inductive Step (w : World) (e : Event) (w' : World) : Prop where
  | move (h : Move w e w')
  | act (h : Act w e w')

/-- The log of a run from one state to another, the oldest event first. -/
inductive World.Run (start : World) : List Event → World → Prop where
  | refl : start.Run [] start
  | next {log : List Event} {w w' : World} {e : Event}
      (run : start.Run log w) (step : Step w e w') :
    start.Run (log ++ [e]) w'

/-- Nothing happens any more by itself. -/
def World.Settled (w : World) : Prop := ∀ e w', ¬Move w e w'

/-! ## Runs in pieces -/

theorem World.Run.single {w w' : World} {e : Event} (step : Step w e w') : w.Run [e] w' :=
  .next .refl step

theorem World.Run.trans {a b c : World} {log more : List Event}
    (h : a.Run log b) (h' : b.Run more c) :
    a.Run (log ++ more) c := by
  induction h' with
  | refl =>
    rw [List.append_nil]
    exact h
  | next _ step ih =>
    rw [← List.append_assoc]
    exact .next ih step

/-- What every step keeps, every run keeps. -/
theorem World.Run.preserves {a b : World} {log : List Event} (h : a.Run log b) {P : World → Prop}
    (step : ∀ {w e w'}, Step w e w' → P w → P w') (start : P a) : P b := by
  induction h with
  | refl => exact start
  | next _ last ih => exact step last ih

theorem World.Run.split {a c : World} {log : List Event} (h : a.Run log c) :
    ∀ {front back : List Event}, log = front ++ back →
      ∃ b, a.Run front b ∧ b.Run back c := by
  induction h with
  | refl =>
    intro front back hlog
    obtain ⟨rfl, rfl⟩ := List.append_eq_nil_iff.mp hlog.symm
    exact ⟨a, .refl, .refl⟩
  | @next log w w' e run step ih =>
    intro front back hlog
    -- The cut is at the end, or before the last step.
    rcases List.eq_nil_or_concat back with rfl | ⟨init, last, rfl⟩
    · rw [List.append_nil] at hlog
      exact ⟨w', hlog ▸ .next run step, .refl⟩
    · rw [List.concat_eq_append, ← List.append_assoc] at hlog
      obtain ⟨hinit, hlast⟩ := List.append_inj' hlog rfl
      obtain ⟨b, before, after⟩ := ih hinit
      obtain rfl : e = last := by simpa using hlast
      refine ⟨b, before, ?_⟩
      rw [List.concat_eq_append]
      exact .next after step

theorem World.Run.of_concat {a c : World} {log : List Event}
    {e : Event} (h : a.Run (log ++ [e]) c) :
    ∃ b, a.Run log b ∧ Step b e c := by
  generalize hl : log ++ [e] = l at h
  cases h with
  | refl => simp at hl
  | next run step =>
    obtain ⟨rfl, he⟩ := List.append_inj' hl rfl
    obtain rfl : e = _ := by simpa using he
    exact ⟨_, run, step⟩

theorem World.Run.at_event {a c : World} {front back : List Event} {e : Event}
    (h : a.Run (front ++ e :: back) c) :
    ∃ w w', a.Run front w ∧ Step w e w' ∧ w'.Run back c := by
  rw [List.append_cons] at h
  obtain ⟨w', before, after⟩ := h.split rfl
  obtain ⟨w, run, step⟩ := before.of_concat
  exact ⟨w, w', run, step, after⟩

end MinerGateway
