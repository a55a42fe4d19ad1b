import MinerGateway.Proofs.Transition

/-!
Where the letters of a gateway are: queued in a channel, or held by hand.

The lemmas say what each operation does to the queued and the held letters, up to their order, and
what the loss of letters does to the calls.
-/

namespace MinerGateway

namespace Intake

variable {intake rest : Intake} {letter : Letter} {kind : Kind}

theorem letters_put_perm (intake : Intake) (letter : Letter) :
    (intake.put letter).letters.Perm (letter :: intake.letters) := by
  obtain ⟨sender, message⟩ := letter
  cases message with
  | fetch =>
    simp only [put, letters, Letter.kind, Message.kind, queue, setQueue, List.append_assoc]
    exact List.perm_middle
  | submission s =>
    simp only [put, letters, Letter.kind, Message.kind, queue, setQueue]
    rw [← List.append_assoc, List.append_assoc, List.singleton_append]
    exact List.perm_middle
  | report r =>
    simp only [put, letters, Letter.kind, Message.kind, queue, setQueue]
    rw [← List.append_assoc]
    exact List.perm_append_singleton _ _

theorem letters_take_perm (h : intake.take kind = some (letter, rest)) :
    intake.letters.Perm (letter :: rest.letters) := by
  unfold take at h
  split at h
  · cases h
  next first others queue =>
  obtain ⟨rfl, rfl⟩ := Prod.mk.inj (Option.some.inj h)
  cases kind with
  | fetch =>
    simp only [Intake.queue] at queue
    simp only [letters, setQueue, queue, List.cons_append]
    exact .refl _
  | submission =>
    simp only [Intake.queue] at queue
    simp only [letters, setQueue, queue, List.append_assoc, List.cons_append]
    exact List.perm_middle
  | report =>
    simp only [Intake.queue] at queue
    simp only [letters, setQueue, queue]
    exact List.perm_middle

theorem next_eq_some (h : intake.next = some (letter, rest)) :
    ∃ kind, intake.take kind = some (letter, rest) := by
  unfold next at h
  rcases Option.or_eq_some_iff.mp h with h | ⟨-, h⟩
  · exact ⟨.fetch, h⟩
  rcases Option.or_eq_some_iff.mp h with h | ⟨-, h⟩
  · exact ⟨.submission, h⟩
  · exact ⟨.report, h⟩

theorem letters_eq_nil_of_next (h : intake.next = none) : intake.letters = [] := by
  have empty : ∀ kind, intake.take kind = none → intake.queue kind = [] := by
    intro kind h
    unfold take at h
    split at h
    · assumption
    · cases h
  rw [next, Option.or_eq_none_iff, Option.or_eq_none_iff] at h
  have fetches := empty .fetch h.1
  have submissions := empty .submission h.2.1
  have reports := empty .report h.2.2
  simp only [queue] at fetches submissions reports
  simp only [letters, fetches, submissions, reports, List.append_nil]

theorem take_frame (h : intake.take kind = some (letter, rest)) :
    rest.capacity = intake.capacity ∧ rest.signalled = intake.signalled ∧
      rest.attended = intake.attended := by
  unfold take at h
  split at h
  · cases h
  · obtain ⟨-, rfl⟩ := Prod.mk.inj (Option.some.inj h)
    exact ⟨capacity_setQueue .., signalled_setQueue .., attended_setQueue ..⟩

@[simp] theorem capacity_put : (intake.put letter).capacity = intake.capacity :=
  capacity_setQueue ..

@[simp] theorem signalled_put : (intake.put letter).signalled = intake.signalled :=
  signalled_setQueue ..

@[simp] theorem attended_put : (intake.put letter).attended = intake.attended :=
  attended_setQueue ..

@[simp] theorem letters_signal : intake.signal.letters = intake.letters := rfl

@[simp] theorem letters_abandon : intake.abandon.letters = [] := rfl

end Intake

namespace World

def queued (w : World) : List Letter := (w.intake.map Intake.letters).getD []

def held (w : World) : List Letter :=
  match w.engine with
  | .scripted script => script.held.filterMap id
  | _ => []

theorem intake_signal {w : World} {intake : Intake} (h : w.intake = some intake) :
    w.signal.intake = some intake.signal := by
  rw [signal, h, Option.map_some]

theorem queued_signal (w : World) : w.signal.queued = w.queued := by
  cases h : w.intake with
  | none => rw [queued, queued, signal, h, Option.map_none]
  | some intake =>
    rw [queued, queued, intake_signal h, h, Option.map_some, Option.map_some, Intake.letters_signal]

/-! ## Calls after a step -/

theorem getElem?_setStage (w : World) (i j : Nat) (stage : Stage) :
    (w.setStage i stage).calls[j]? =
      if i = j then w.calls[j]?.map fun call => { call with stage } else w.calls[j]? := by
  by_cases h : i = j
  · subst h
    simp [setStage]
  · simp [setStage, h]

theorem getElem?_deliver (w : World) (i j : Nat) (reply : Reply) :
    (w.deliver i reply).calls[j]? =
      if i = j then w.calls[j]?.map (Call.receive reply) else w.calls[j]? := by
  by_cases h : i = j
  · subst h
    simp [deliver]
  · simp [deliver, h]

theorem receive_receive (reply : Reply) (call : Call) :
    (call.receive reply).receive reply = call.receive reply := by
  obtain ⟨errand, stage, reported⟩ := call
  cases stage <;> rfl

theorem receive_errand (reply : Reply) (call : Call) :
    (call.receive reply).errand = call.errand := by
  obtain ⟨errand, stage, reported⟩ := call
  cases stage <;> rfl

/-- Losing letters tells each sender so, and nobody else. -/
theorem getElem?_lose (letters : List Letter) (w : World) (j : Nat) :
    (w.lose letters).calls[j]? =
      if j ∈ letters.map Letter.sender then w.calls[j]?.map (Call.receive .lost)
      else w.calls[j]? := by
  induction letters generalizing w with
  | nil => rfl
  | cons letter rest ih =>
    have step : w.lose (letter :: rest) = (w.deliver letter.sender .lost).lose rest := rfl
    rw [step, ih, getElem?_deliver]
    by_cases first : letter.sender = j
    -- A second loss tells the sender nothing new.
    · by_cases later : j ∈ rest.map Letter.sender
      · simp only [first, later, if_true, List.map_cons, List.mem_cons, true_or, Option.map_map]
        congr 1
        funext call
        exact receive_receive .lost call
      · simp only [first, later, if_true, if_false, List.map_cons, List.mem_cons, true_or]
    · have other : ¬j = letter.sender := by
        intro h
        exact first h.symm
      simp only [first, if_false, List.map_cons, List.mem_cons, other, false_or]

theorem lose_frame (letters : List Letter) (w : World) :
    (w.lose letters).engine = w.engine ∧ (w.lose letters).intake = w.intake ∧
      (w.lose letters).calls.length = w.calls.length := by
  induction letters generalizing w with
  | nil => exact ⟨rfl, rfl, rfl⟩
  | cons letter rest ih =>
    obtain ⟨engine, intake, length⟩ := ih (w.deliver letter.sender .lost)
    exact ⟨engine, intake, length.trans (List.length_modify ..)⟩

theorem lose_attached (letters : List Letter) (w : World) :
    (w.lose letters).attached = w.attached := by
  induction letters generalizing w with
  | nil => rfl
  | cons letter rest ih => exact ih (w.deliver letter.sender .lost)

end World

end MinerGateway
