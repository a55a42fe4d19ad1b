import MinerGateway.Proofs.Letters
import MinerGateway.Proofs.SessionRuns

/-!
How the engine and the channels in front of it go together.

`Sound` says that the channels have room for at least one letter, that the worker's end of them
exists exactly as long as a sealer's loop runs, and that nothing lies in front of a worker that is
gone. Started sealers and scripted workers are sound (`sound_started`, `sound_scripted`), and every
step keeps them so (`sound_step`).

This is the invariant behind every statement about sealers that have ended: whoever looks at the
channels alone can tell whether anybody is at the other end of them.
-/

namespace MinerGateway

/-- The engine and the channels agree. -/
structure Engine.Sound (engine : Engine) (intake : Intake) : Prop where
  capacity_pos : 0 < intake.capacity
  unattended : intake.attended = false → intake.letters = []
  attended_iff : ∀ sealer, engine = .sealer sealer →
    (intake.attended = true ↔ sealer.loop = .running)
  idle : ∀ sealer, engine = .sealer sealer → sealer.loop ≠ .running →
    sealer.tasks = [] ∧ sealer.cleanupDue = false
  ended : ∀ sealer, engine = .sealer sealer → sealer.loop = .ended → intake.signalled = true

/-- The gateway has channels, and its engine agrees with them. -/
def World.Sound (w : World) : Prop := ∃ intake, w.intake = some intake ∧ w.engine.Sound intake

namespace Engine.Sound

variable {engine : Engine} {intake : Intake}

theorem signal (h : engine.Sound intake) : engine.Sound intake.signal where
  capacity_pos := h.capacity_pos
  unattended := h.unattended
  attended_iff := h.attended_iff
  idle := h.idle
  ended _ _ _ := rfl

theorem put (h : engine.Sound intake) (letter : Letter) (attended : intake.attended = true) :
    engine.Sound (intake.put letter) where
  capacity_pos := by
    rw [Intake.capacity_put]
    exact h.capacity_pos
  unattended hu := by
    rw [Intake.attended_put, attended] at hu
    cases hu
  attended_iff sealer he := by
    rw [Intake.attended_put]
    exact h.attended_iff sealer he
  idle := h.idle
  ended sealer he hl := by
    rw [Intake.signalled_put]
    exact h.ended sealer he hl

theorem take (h : engine.Sound intake) {kind : Kind} {letter : Letter} {rest : Intake}
    (taken : intake.take kind = some (letter, rest)) : engine.Sound rest := by
  obtain ⟨capacity, signalled, attended⟩ := Intake.take_frame taken
  have letters := Intake.letters_take_perm taken
  refine ⟨capacity ▸ h.capacity_pos, ?_, ?_, h.idle, ?_⟩
  · intro hu
    -- There was a letter to take, so the worker's end exists.
    rw [h.unattended (attended ▸ hu)] at letters
    exact absurd letters.nil_eq (List.cons_ne_nil _ _).symm
  · rw [attended]
    exact h.attended_iff
  · rw [signalled]
    exact h.ended

theorem congr_sealer {sealer sealer' : Sealer} (h : (Engine.sealer sealer).Sound intake)
    (loop : sealer'.loop = sealer.loop)
    (idle : sealer.loop ≠ .running → sealer'.tasks = sealer.tasks ∧
      sealer'.cleanupDue = sealer.cleanupDue) :
    (Engine.sealer sealer').Sound intake where
  capacity_pos := h.capacity_pos
  unattended := h.unattended
  attended_iff s hs := by
    cases hs
    rw [loop]
    exact h.attended_iff sealer rfl
  idle s hs hl := by
    cases hs
    rw [loop] at hl
    obtain ⟨tasks, due⟩ := idle hl
    rw [tasks, due]
    exact h.idle sealer rfl hl
  ended s hs hl := by
    cases hs
    exact h.ended sealer rfl (loop ▸ hl)

theorem congr_scripted {script script' : Script} (h : (Engine.scripted script).Sound intake) :
    (Engine.scripted script').Sound intake where
  capacity_pos := h.capacity_pos
  unattended := h.unattended
  attended_iff _ hs := by cases hs
  idle _ hs := by cases hs
  ended _ hs := by cases hs

end Engine.Sound

/-- Serving a message leaves the loop, the tasks and the settings alone. -/
theorem Sealer.serve_frame (sealer : Sealer) (now : Nat) (message : Message) :
    (sealer.serve now message).1.loop = sealer.loop ∧
      (sealer.serve now message).1.tasks = sealer.tasks ∧
      (sealer.serve now message).1.cleanupDue = sealer.cleanupDue ∧
      (sealer.serve now message).1.settings = sealer.settings ∧
      (sealer.serve now message).1.verifier = sealer.verifier := by
  cases message with
  | fetch => exact ⟨rfl, rfl, rfl, rfl, rfl⟩
  | submission s =>
    simp only [serve]
    split <;> exact ⟨rfl, rfl, rfl, rfl, rfl⟩
  | report r => exact ⟨rfl, rfl, rfl, rfl, rfl⟩

namespace World

variable {w w' : World}

theorem pushTask_eq_ok {task : Task} (h : w.pushTask task = .ok w') :
    ∃ sealer, w.engine = .sealer sealer ∧ sealer.loop = .running ∧ w.isSignalled = false ∧
      w' = { w with engine := .sealer { sealer with tasks := sealer.tasks ++ [task] } } := by
  unfold pushTask at h
  split at h
  · next sealer engine =>
    split at h
    · cases h
    · next accepted =>
      simp only [Bool.or_eq_true, bne_iff_ne, ne_eq, not_or, Bool.not_eq_true,
        Decidable.not_not] at accepted
      cases h
      exact ⟨sealer, engine, accepted.2, accepted.1, rfl⟩
  · cases h

theorem Sound.of_pushTask (h : w.Sound) {task : Task} (pushed : w.pushTask task = .ok w') :
    w'.Sound := by
  obtain ⟨intake, hi, sound⟩ := h
  obtain ⟨sealer, engine, loop, -, rfl⟩ := pushTask_eq_ok pushed
  rw [engine] at sound
  exact ⟨intake, hi, sound.congr_sealer rfl fun hl => absurd loop hl⟩

theorem sound_signal (h : w.Sound) : w.signal.Sound := by
  obtain ⟨intake, hi, sound⟩ := h
  exact ⟨intake.signal, intake_signal hi, sound.signal⟩

/-- Losing letters of channels that are going away, with the loop if there is one. -/
theorem sound_lose {engine : Engine} {intake : Intake} (letters : List Letter)
    (sound : engine.Sound intake.abandon) :
    ({ w with engine, intake := some intake.abandon }.lose letters).Sound := by
  obtain ⟨he, hi, -⟩ := lose_frame letters { w with engine, intake := some intake.abandon }
  exact ⟨intake.abandon, hi, he ▸ sound⟩

theorem sound_move {e : Event} (step : Move w e w') (h : w.Sound) : w'.Sound := by
  obtain ⟨intake, hi, sound⟩ := h
  cases step with
  | advance => exact ⟨intake, hi, sound⟩
  | @enter i call message intake' found _ hi' _ attended _ =>
    rw [hi] at hi'
    cases hi'
    exact ⟨_, rfl, sound.put _ attended⟩
  | produce _ _ _ pushed =>
    obtain ⟨intake', hi', sound'⟩ := Sound.of_pushTask ⟨intake, hi, sound⟩ pushed
    exact ⟨intake', hi', sound'⟩
  | @quit sealer intake' working signalled =>
    obtain rfl := Option.some.inj (hi.symm.trans working.intake)
    -- The loop ends with its channels, and only on the signal.
    refine sound_lose _ ⟨sound.capacity_pos, fun _ => rfl, ?_, ?_, fun _ _ _ => signalled⟩
    · intro s hs
      cases hs
      exact ⟨by simp [Intake.abandon], by simp [Sealer.exit]⟩
    · intro s hs _
      cases hs
      exact ⟨rfl, rfl⟩
  | handle working =>
    rw [working.engine] at sound
    exact ⟨intake, hi, sound.congr_sealer rfl fun hl => absurd working.loop hl⟩
  | @serve sealer intake' rest letter working quiet queue next =>
    obtain rfl := Option.some.inj (hi.symm.trans working.intake)
    obtain ⟨kind, taken⟩ := Intake.next_eq_some next
    rw [working.engine] at sound
    exact ⟨rest, rfl, (sound.take taken).congr_sealer (sealer.serve_frame ..).1
      fun hl => absurd working.loop hl⟩
  | clean working =>
    rw [working.engine] at sound
    exact ⟨intake, hi, sound.congr_sealer rfl fun hl => absurd working.loop hl⟩
  | release => exact sound_signal ⟨intake, hi, sound⟩

theorem sound_act {e : Event} (step : Act w e w') (h : w.Sound) : w'.Sound := by
  obtain ⟨intake, hi, sound⟩ := h
  cases step with
  | make => exact ⟨intake, hi, sound⟩
  | post hi' attended _ =>
    obtain rfl := Option.some.inj (hi.symm.trans hi')
    exact ⟨_, rfl, sound.put _ attended⟩
  | abort => exact ⟨intake, hi, sound⟩
  | push pushed => exact Sound.of_pushTask ⟨intake, hi, sound⟩ pushed
  | signal => exact sound_signal ⟨intake, hi, sound⟩
  | receive engine | abandon engine | join engine =>
    rw [engine] at sound
    exact ⟨intake, hi, sound.congr_sealer rfl fun _ => ⟨rfl, rfl⟩⟩
  | setHashrate engine =>
    rw [engine] at sound
    exact ⟨intake, hi, sound.congr_scripted⟩
  | take engine hi' taken =>
    obtain rfl := Option.some.inj (hi.symm.trans hi')
    rw [engine] at sound
    exact ⟨_, rfl, (sound.take taken).congr_scripted⟩
  | resolve engine =>
    rw [engine] at sound
    exact ⟨intake, hi, sound.congr_scripted⟩
  | @drop intake' script engine hi' =>
    obtain rfl := Option.some.inj (hi.symm.trans hi')
    rw [engine] at sound
    have scripted : ∀ s, w.engine ≠ .sealer s := by
      intro s hs
      rw [engine] at hs
      cases hs
    refine sound_lose _ ⟨sound.capacity_pos, fun _ => rfl, ?_, ?_, ?_⟩
    · intro s hs
      exact absurd hs (scripted s)
    · intro s hs
      exact absurd hs (scripted s)
    · intro s hs
      exact absurd hs (scripted s)
  | read => exact ⟨intake, hi, sound⟩
  | detach => exact ⟨intake, hi, sound⟩
  | @ring target timer timers rung =>
    unfold fire
    split
    · next sealer _ engine =>
      split
      · next loop =>
        change w.engine = _ at engine
        rw [engine] at sound
        exact ⟨intake, hi, sound.congr_sealer rfl fun hl => absurd loop hl⟩
      · exact ⟨intake, hi, sound⟩
    · exact ⟨intake, hi, sound⟩
    · exact ⟨intake, hi, sound⟩
  | pass => exact ⟨intake, hi, sound⟩
  | report => exact ⟨intake, hi, sound⟩

theorem sound_step {e : Event} (step : Step w e w') (h : w.Sound) : w'.Sound := by
  cases step with
  | move step => exact sound_move step h
  | act step => exact sound_act step h

theorem sound_started (settings : EngineSettings) (verifier : Verifier) :
    (started settings verifier).Sound := by
  have capacity : 0 < max settings.intakeCapacity 1 := by omega
  by_cases h : settings.cleanupInterval = 0
  · -- Without a cleanup interval the worker dies at its start, and its channels with it.
    refine ⟨(Intake.start settings.intakeCapacity).abandon, by simp [started, Sealer.start, h],
      capacity, fun _ => rfl, ?_, ?_, ?_⟩ <;> intro s hs <;> cases hs <;>
      simp [Sealer.start, h, Intake.abandon]
  · refine ⟨Intake.start settings.intakeCapacity, by simp [started, Sealer.start, h],
      capacity, by simp [Intake.start], ?_, ?_, ?_⟩ <;> intro s hs <;> cases hs <;>
      simp [Sealer.start, h, Intake.start]

theorem sound_scripted (capacity : Nat) : (scripted capacity).Sound := by
  have room : 0 < max capacity 1 := by omega
  exact ⟨Intake.start capacity, rfl, room, by simp [Intake.start], by simp [scripted],
    by simp [scripted], by simp [scripted]⟩

end World

end MinerGateway
