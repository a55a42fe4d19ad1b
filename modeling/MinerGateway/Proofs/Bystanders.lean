import MinerGateway.Proofs.Callers

/-!
Calls that ask nothing of the worker.

A call that has its answer as soon as it begins stands beside everything else. It neither moves nor
takes what others do (`move_beside`), so the gateway settles as it would without the call
(`settle_beside`), whatever its engine is and in whatever state.
-/

namespace MinerGateway

/-- The call neither moves by itself nor takes a reply. -/
def Call.IsIdle (call : Call) : Prop := call.stage = .made ∨ ∃ answer, call.stage = .finished answer

namespace World

/-- The same gateway with one more call in front of it. -/
def beside (call : Call) (w : World) : World := w.withCalls fun calls => calls ++ [call]

variable {w w' : World} {call : Call} {e : Event}

/-! ## Settling comes to an end -/

theorem attached_run (n : Nat) (w : World) : (w.run n).attached = w.attached := by
  refine run_preserves (P := fun v => v.attached = w.attached) ?_ n rfl
  intro v v' turn same
  obtain ⟨e, step⟩ := move_move turn
  exact (attached_move step).trans same

theorem isOrphaned_of_attached (attached : w.attached = true) : w.isOrphaned = false := by
  unfold isOrphaned
  split
  · simp [attached]
  · rfl

theorem idle_run_of_attached (attached : w.attached = true) (n : Nat) (enough : w.potential ≤ n) :
    (w.run n).move = none := by
  refine move_run_of_falls (P := fun v => v.attached = true) ?_ ?_ n attached enough
  · intro v v' turn attached
    obtain ⟨e, step⟩ := move_move turn
    exact (attached_move step).trans attached
  · intro v v' turn attached
    obtain ⟨e, step⟩ := move_move turn
    refine potential_lt_of_move step fun orphaned => ?_
    rw [isOrphaned_of_attached attached] at orphaned
    cases orphaned

theorem run_add_of_idle {n : Nat} (idle : (w.run n).move = none) (more : Nat) :
    w.run (n + more) = w.run n := by
  induction n generalizing w with
  | zero =>
    cases more with
    | zero => rfl
    | succ more =>
      have idle : w.move = none := idle
      rw [Nat.zero_add]
      simp only [run, idle]
  | succ n ih =>
    rw [Nat.add_right_comm, run, run]
    rw [run] at idle
    cases turn : w.move with
    | none => rfl
    | some next =>
      rw [turn] at idle
      exact ih idle

/-! ## A call beside the others -/

theorem modify_concat {α : Type} {f : α → α} {l : List α} {a : α} (alone : f a = a) (j : Nat) :
    (l ++ [a]).modify j f = l.modify j f ++ [a] := by
  induction l generalizing j with
  | nil => cases j <;> simp [alone]
  | cons first rest ih => cases j <;> simp [ih]

theorem takes_beside (idle : call.IsIdle) : TakesAlike fun calls => calls ++ [call] := by
  intro calls j reply
  have alone : call.receive reply = call := by
    obtain ⟨errand, stage, reported⟩ := call
    rcases idle with made | ⟨answer, finished⟩
    · obtain rfl := made
      rfl
    · obtain rfl := finished
      rfl
  exact modify_concat alone j

theorem callMove_of_idle (idle : call.IsIdle) (w : World) (j : Nat) : w.callMove j call = none := by
  rcases idle with made | ⟨answer, finished⟩
  · simp only [callMove, made]
  · simp only [callMove, finished]

/-- The others move as they would alone. -/
theorem callMove_beside {j : Nat} (inside : j < w.calls.length) (other : Call) :
    (w.beside call).callMove j other = (w.callMove j other).map (beside call) := by
  have carries : ∀ stage, Carries (fun calls => calls ++ [call]) w.calls j stage stage :=
    fun _ => append_modify inside [call]
  exact callMove_withCalls rfl (fun _ => Iff.rfl) (fun stage _ => carries stage)
    (fun _ => carries _)
    fun _ _ => carries _

theorem findSome?_congr {α β : Type} {f g : α → Option β} {l : List α}
    (same : ∀ a ∈ l, f a = g a) : l.findSome? f = l.findSome? g := by
  induction l with
  | nil => rfl
  | cons first rest ih =>
    obtain ⟨here, later⟩ := List.forall_mem_cons.mp same
    rw [List.findSome?_cons, List.findSome?_cons, here, ih later]

theorem anyCallMove_beside (idle : call.IsIdle) (w : World) :
    (w.beside call).anyCallMove = w.anyCallMove.map (beside call) := by
  have others : (w.calls.zipIdx.findSome? fun entry => (w.beside call).callMove entry.2 entry.1)
      = w.anyCallMove.map (beside call) := by
    refine Eq.trans ?_ List.map_findSome?.symm
    apply findSome?_congr
    rintro ⟨other, j⟩ there
    exact callMove_beside
      (List.getElem?_eq_some_iff.mp (List.mem_zipIdx_iff_getElem?.mp there)).1 other
  have none : ∀ j, (w.beside call).callMove j call = none := callMove_of_idle idle _
  have calls : (w.beside call).calls.zipIdx = w.calls.zipIdx ++ [(call, w.calls.length)] := by
    simp [beside, withCalls, List.zipIdx_append]
  have split : (w.beside call).anyCallMove
      = ((w.beside call).calls.zipIdx.findSome? fun entry =>
        (w.beside call).callMove entry.2 entry.1) := rfl
  rw [split, calls, List.findSome?_append, others, List.findSome?_cons, none]
  exact Option.or_none

/-- **A call that is idle changes no move**, as long as the engine is held from outside. -/
theorem move_beside (idle : call.IsIdle) (attached : w.attached = true) :
    (w.beside call).move = w.move.map (beside call) := by
  refine move_withCalls (takes_beside idle) (anyCallMove_beside idle w) ?_
  rw [isOrphaned_of_attached attached]
  exact isOrphaned_of_attached attached

theorem run_beside (idle : call.IsIdle) (attached : w.attached = true) (n : Nat) :
    (w.beside call).run n = (w.run n).beside call := by
  induction n generalizing w with
  | zero => rfl
  | succ n ih =>
    rw [run, run, move_beside idle attached]
    cases turn : w.move with
    | none => rfl
    | some next =>
      obtain ⟨e, step⟩ := move_move turn
      exact ih ((attached_move step).trans attached)

/-- What is left to do is what the call has left to do and what the others have. -/
theorem potential_beside (call : Call) (w : World) :
    (w.beside call).potential = w.potential + call.potential := by
  have calls : callWork (w.calls ++ [call]) = callWork w.calls + call.potential := by
    induction w.calls with
    | nil => exact Nat.add_comm call.potential 0
    | cons first rest ih =>
      simp only [callWork, List.cons_append, List.foldr_cons] at ih ⊢
      omega
  have same : (w.beside call).queued = w.queued ∧ (w.beside call).isSignalled = w.isSignalled :=
    ⟨rfl, rfl⟩
  rw [potential_eq, potential_eq, same.1, same.2]
  simp only [potentialOf, beside, withCalls, calls]
  omega

theorem quiesce_beside (idle : call.IsIdle) (attached : w.attached = true) :
    (w.beside call).quiesce = w.quiesce.beside call := by
  have settled : (w.run w.potential).move = none := idle_run_of_attached attached _ (Nat.le_refl _)
  rw [quiesce, potential_beside, run_beside idle attached, run_add_of_idle settled]
  rfl

theorem beginCalls_beside (call : Call) (w : World) :
    (w.beside call).beginCalls
      = w.beginCalls.beside (call.begun w.intake.isSome w.engine.hashrate) := by
  rw [beginCalls_eq, beginCalls_eq]
  simp only [beside, withCalls, List.map_append, List.map_singleton]

/-- **A call that has its answer as soon as it begins leaves everything else as it would be.** -/
theorem settle_beside (attached : w.attached = true) {errand : Errand} {answer : Answer}
    (first : ∀ connected, errand.first connected w.quiesce.engine.hashrate = .finished answer) :
    (w.makeCall errand).2.settle = w.settle.beside { errand, stage := .finished answer } := by
  have held : w.quiesce.attached = true := (attached_run w.potential w).trans attached
  have held : w.quiesce.beginCalls.attached = true := by
    rw [beginCalls_eq]
    exact held
  have begun : ({ errand } : Call).begun w.quiesce.intake.isSome w.quiesce.engine.hashrate
      = { errand, stage := .finished answer } := by
    simp only [Call.begun, first]
  calc (w.beside { errand }).settle
      = (w.quiesce.beside { errand }).beginCalls.quiesce := by
        rw [settle, quiesce_beside (.inl rfl) attached]
    _ = (w.quiesce.beginCalls.beside { errand, stage := .finished answer }).quiesce := by
        rw [beginCalls_beside, begun]
    _ = w.settle.beside { errand, stage := .finished answer } :=
        quiesce_beside (.inr ⟨answer, rfl⟩) held

end World

end MinerGateway
