import MinerGateway.Proofs.Tracking

/-!
What one step does to a sealer.

`Sealer.Takes` lists, event by event, how a sealer changes; `takes_step` says that a step in front
of a sealer changes it so. Whatever is to hold of the ledger, the tasks or the outbox along a run is
proved from this list alone.
-/

namespace MinerGateway

/-- The event leaves the engine alone and says nothing about it. -/
def Event.Apart : Event → Prop
  | .made .. | .begun _ | .entered _ | .posted _ | .aborted _ | .signalled | .reported | .other =>
    True
  | .finished _ errand _ => ∀ id, errand ≠ .readHashrate id
  | _ => False

theorem Event.replies_of_apart {e : Event} (h : e.Apart) (i : Nat) :
    replies (e.happenings i) = [] := by
  cases e with
  | made | finished | aborted | entered | posted =>
    simp only [Event.happenings]
    split <;> rfl
  | served | taken | resolved | ended | dropped => cases h
  | _ => rfl

/-- How an event changes a sealer. -/
inductive Sealer.Takes (s : Sealer) : Event → Sealer → Prop where
  | pushed {task} (running : s.loop = .running) :
    s.Takes (.pushed task) { s with tasks := s.tasks ++ [task] }
  | handled {task tasks} (running : s.loop = .running) (queue : s.tasks = task :: tasks) :
    s.Takes (.handled task) { s with ledger := s.ledger.push task, tasks }
  | served {now letter} (running : s.loop = .running) (queue : s.tasks = []) :
    s.Takes (.served now letter s (s.serve now letter.message).1 (s.serve now letter.message).2)
      (s.serve now letter.message).1
  | cleaned {now} (running : s.loop = .running) (queue : s.tasks = []) :
    s.Takes (.cleaned now)
      { s with ledger := s.ledger.cleanup s.settings now, cleanupDue := false }
  | ended {lost} (running : s.loop = .running) : s.Takes (.ended lost) s.exit
  | received {work outbox} (attended : s.outbox.attended = true)
      (h : s.outbox.receive = some (work, outbox)) : s.Takes (.received work) { s with outbox }
  | abandoned : s.Takes .abandoned { s with outbox := s.outbox.abandon }
  | read : s.Takes (.read s.ledger.published) s
  | told {call id} : s.Takes
      (.finished call (.readHashrate id) (.response ⟨id, .ok (.hashrate s.ledger.published)⟩)) s
  /-- Someone waits for the loop to end. -/
  | joined : s.Takes .other { s with joined := true }
  /-- Housekeeping falls due. -/
  | due (running : s.loop = .running) : s.Takes .other { s with cleanupDue := true }
  | apart {e} (h : e.Apart) : s.Takes e s

namespace World

variable {w w' : World} {e : Event} {log : List Event} {s : Sealer}

/-- A reader of the hash rate never waits. -/
theorem stage_of_readHashrate {id : Rpc.Id} {past : List Happening} {stage : Stage} {place : Place}
    (life : Life (.readHashrate id) past stage place) :
    stage = .made ∨ ∃ answer, stage = .finished answer := by
  generalize he : Errand.readHashrate id = errand at life
  induction life with
  | made => exact .inl rfl
  | posted h =>
    rw [h] at he
    cases he
  | advance _ _ h =>
    subst he
    cases h with
    | read => exact .inr ⟨_, rfl⟩
    | refused | learn | exited | stopped => exact .inr ⟨_, rfl⟩
  | produce _ ih | enter _ ih | reply _ _ _ ih => rcases ih with h | ⟨_, h⟩ <;> cases h
  | take _ ih => exact ih
  | late | abort => exact .inr ⟨_, rfl⟩

theorem takes_advance {i : Nat} {call : Call} {stage : Stage} (tracked : w.Tracked log)
    (engine : w.engine = .sealer s) (found : w.calls[i]? = some call)
    (h : Advances w call.errand call.stage stage) : s.Takes (.ofStage i call.errand stage) s := by
  -- Of all calls only a reader says something about the engine when it finishes.
  by_cases reader : ∃ id, call.errand = .readHashrate id
  · obtain ⟨id, reader⟩ := reader
    obtain ⟨place, -, life⟩ := tracked.life (view_eq_some found)
    rw [reader] at life h ⊢
    have made : call.stage = .made := by
      apply (stage_of_readHashrate life).resolve_right
      rintro ⟨answer, hs⟩
      exact h.stage_ne.2 answer hs
    rw [made] at h
    cases h
    rw [engine]
    exact .told
  · refine .apart ?_
    cases stage with
    | finished answer =>
      intro id hid
      exact reader ⟨id, hid⟩
    | _ => trivial

theorem takes_move (step : Move w e w') (tracked : w.Tracked log) (engine : w.engine = .sealer s) :
    ∃ s', w'.engine = .sealer s' ∧ s.Takes e s' := by
  cases step with
  | advance found h => exact ⟨s, engine, takes_advance tracked engine found h⟩
  | enter => exact ⟨s, engine, .apart trivial⟩
  | produce _ _ _ pushed =>
    obtain ⟨s', engine', running, -, rfl⟩ := pushTask_eq_ok pushed
    obtain rfl := Engine.sealer.inj (engine.symm.trans engine')
    exact ⟨_, rfl, .pushed running⟩
  | quit working =>
    obtain rfl := Engine.sealer.inj (engine.symm.trans working.engine)
    exact ⟨_, (lose_frame _ _).1, .ended working.loop⟩
  | handle working _ queue =>
    obtain rfl := Engine.sealer.inj (engine.symm.trans working.engine)
    exact ⟨_, rfl, .handled working.loop queue⟩
  | serve working _ queue =>
    obtain rfl := Engine.sealer.inj (engine.symm.trans working.engine)
    exact ⟨_, rfl, .served working.loop queue⟩
  | clean working _ queue =>
    obtain rfl := Engine.sealer.inj (engine.symm.trans working.engine)
    exact ⟨_, rfl, .cleaned working.loop queue⟩
  | release => exact ⟨s, engine, .apart trivial⟩

theorem takes_act (step : Act w e w') (engine : w.engine = .sealer s) :
    ∃ s', w'.engine = .sealer s' ∧ s.Takes e s' := by
  cases step with
  | make | post | abort | signal | detach | pass | report => exact ⟨s, engine, .apart trivial⟩
  | push pushed =>
    obtain ⟨s', engine', running, -, rfl⟩ := pushTask_eq_ok pushed
    obtain rfl := Engine.sealer.inj (engine.symm.trans engine')
    exact ⟨_, rfl, .pushed running⟩
  | receive engine' attended h =>
    obtain rfl := Engine.sealer.inj (engine.symm.trans engine')
    exact ⟨_, rfl, .received attended h⟩
  | abandon engine' =>
    obtain rfl := Engine.sealer.inj (engine.symm.trans engine')
    exact ⟨_, rfl, .abandoned⟩
  | join engine' =>
    obtain rfl := Engine.sealer.inj (engine.symm.trans engine')
    exact ⟨_, rfl, .joined⟩
  | setHashrate other | take other | resolve other | drop other =>
    rw [engine] at other
    cases other
  | read =>
    rw [engine]
    exact ⟨s, rfl, .read⟩
  | ring =>
    unfold fire
    split
    · next s' _ engine' =>
      obtain rfl := Engine.sealer.inj (engine.symm.trans engine')
      split
      · next running => exact ⟨_, rfl, .due running⟩
      · exact ⟨s, engine, .apart trivial⟩
    · exact ⟨s, engine, .apart trivial⟩
    · exact ⟨s, engine, .apart trivial⟩

/-- **A step in front of a sealer changes it as its event says.** -/
theorem takes_step (step : Step w e w') (tracked : w.Tracked log) (engine : w.engine = .sealer s) :
    ∃ s', w'.engine = .sealer s' ∧ s.Takes e s' := by
  cases step with
  | move step => exact takes_move step tracked engine
  | act step => exact takes_act step engine

end World

/-- A sealer changes along a log. -/
inductive Sealer.Passes (s : Sealer) : List Event → Sealer → Prop where
  | refl : s.Passes [] s
  | next {log s' e s''} (before : s.Passes log s') (last : s'.Takes e s'') :
    s.Passes (log ++ [e]) s''

theorem Sealer.Takes.constant {s s' : Sealer} {e : Event} (h : s.Takes e s') :
    s'.settings = s.settings ∧ s'.verifier = s.verifier := by
  cases h with
  | served =>
    obtain ⟨-, -, -, settings, verifier⟩ := s.serve_frame _ _
    exact ⟨settings, verifier⟩
  | _ => exact ⟨rfl, rfl⟩

theorem Sealer.Passes.constant {s s' : Sealer} {log : List Event} (h : s.Passes log s') :
    s'.settings = s.settings ∧ s'.verifier = s.verifier := by
  induction h with
  | refl => exact ⟨rfl, rfl⟩
  | next _ last ih => exact ⟨last.constant.1.trans ih.1, last.constant.2.trans ih.2⟩

theorem Sealer.Takes.loop {s s' : Sealer} {e : Event} (h : s.Takes e s') :
    s'.loop = s.loop ∨ (s.loop = .running ∧ s'.loop = .ended) := by
  cases h with
  | served => exact .inl (Sealer.serve_frame ..).1
  | ended running => exact .inr ⟨running, rfl⟩
  | _ => exact .inl rfl

theorem Sealer.Passes.loop_of_over {s s' : Sealer} {log : List Event} (h : s.Passes log s')
    (idle : s.loop ≠ .running) : s'.loop = s.loop := by
  induction h with
  | refl => rfl
  | next _ last ih =>
    rcases last.loop with same | ⟨running, -⟩
    · exact same.trans ih
    · exact absurd (ih.symm.trans running) idle

/-- Along a run in front of a sealer, the sealer changes as the log says. -/
theorem World.Run.passes {w w' : World} {log past : List Event} {s : Sealer} (h : w.Run log w')
    (tracked : w.Tracked past) (engine : w.engine = .sealer s) :
    ∃ s', w'.engine = .sealer s' ∧ s.Passes log s' := by
  induction h with
  | refl => exact ⟨s, engine, .refl⟩
  | next run step ih =>
    obtain ⟨s', engine', passes⟩ := ih
    obtain ⟨s'', engine'', takes⟩ := World.takes_step step (run.tracked_from tracked) engine'
    exact ⟨s'', engine'', .next passes takes⟩

theorem World.Run.passes_start {settings : EngineSettings} {verifier : Verifier} {w : World}
    {log : List Event} (h : (World.started settings verifier).Run log w) :
    ∃ s, w.engine = .sealer s ∧ (Sealer.start settings verifier).Passes log s :=
  h.passes (World.tracked_started settings verifier) rfl

end MinerGateway
