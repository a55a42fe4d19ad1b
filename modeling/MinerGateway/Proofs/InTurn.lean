import MinerGateway.Proofs.Settling

/-!
Calls take their turns in order.

In a run as such any call may begin first, and any caller that waits may get the room that there is.
In a session calls begin in the order in which they were made, and room goes to the caller who has
waited for it longest. Such steps are `InTurn`, and every session is a run of them, whatever the
engine (`inTurn_session`).
-/

namespace MinerGateway.World

variable {w w' : World} {e : Event} {leaver : Option Nat}

def Fresh (w : World) (i : Nat) : Prop :=
  ∃ request form, w.view i = some (.miner request form, .made)

def Waits (w : World) (i : Nat) (message : Message) : Prop :=
  ∃ errand, w.view i = some (errand, .waiting message)

def Sent (w : World) (i : Nat) : Prop := ∃ errand, w.view i = some (errand, .sent)

/-- A call that comes to wait for room was made first among those that have not begun, and a call
that gets room has waited longest among those that wait for room in the same channel. -/
structure InTurn (w w' : World) : Prop where
  begins : ∀ i message, w.Fresh i → w'.Waits i message → ∀ j, w.Fresh j → i ≤ j
  enters : ∀ i message, w.Waits i message → w'.Sent i →
    ∀ j other, w.Waits j other → other.kind = message.kind → i ≤ j

/-- No call that was there comes to wait for room or for a reply. -/
def Idle (w w' : World) : Prop :=
  ∀ i errand stage, w'.view i = some (errand, stage) →
    (stage = .sent ∨ ∃ message, stage = .waiting message) →
    w.view i = some (errand, stage) ∨ w.view i = none

theorem Idle.inTurn (h : Idle w w') : InTurn w w' := by
  constructor
  · rintro i message ⟨request, form, fresh⟩ ⟨errand, waits⟩
    rcases h i errand _ waits (.inr ⟨message, rfl⟩) with before | before
    · rw [fresh] at before
      cases before
    · rw [fresh] at before
      cases before
  · rintro i message ⟨errand, waits⟩ ⟨errand', sent⟩
    rcases h i errand' _ sent (.inl rfl) with before | before
    · rw [waits] at before
      cases before
    · rw [waits] at before
      cases before

/-! ## Steps in which no call begins or gets room -/

theorem idle_of_view (h : ∀ i, w'.view i = w.view i) : Idle w w' := by
  intro i errand stage after _
  exact .inl ((h i).symm.trans after)

theorem idle_setStage {stage : Stage} (i : Nat) (unsent : stage ≠ .sent)
    (served : ∀ message, stage ≠ .waiting message) : Idle w (w.setStage i stage) := by
  intro j errand stage' after reached
  rw [view_setStage] at after
  split at after
  · obtain ⟨v, -, same⟩ := Option.map_eq_some_iff.mp after
    obtain rfl : stage = stage' := (Prod.mk.inj same).2
    rcases reached with sent | ⟨message, waits⟩
    · exact absurd sent unsent
    · exact absurd waits (served message)
  · exact .inl after

theorem view_of_receive {v : Option (Errand × Stage)} {reply : Reply}
    {errand : Errand} {stage : Stage}
    (h : v.map (fun v => (v.1, v.2.receive reply)) = some (errand, stage))
    (unreplied : ∀ reply, stage ≠ .replied reply) : v = some (errand, stage) := by
  obtain ⟨⟨errand', before⟩, rfl, same⟩ := Option.map_eq_some_iff.mp h
  obtain ⟨rfl, rfl⟩ := Prod.mk.inj same
  cases before with
  | sent => exact absurd rfl (unreplied reply)
  | _ => rfl

theorem unreplied_of_reached {stage : Stage}
    (reached : stage = .sent ∨ ∃ message, stage = .waiting message) :
    ∀ reply, stage ≠ .replied reply := by
  rcases reached with rfl | ⟨message, rfl⟩ <;> simp

theorem idle_deliver (i : Nat) (reply : Reply) : Idle w (w.deliver i reply) := by
  intro j errand stage after reached
  rw [view_deliver] at after
  split at after
  · exact .inl (view_of_receive after (unreplied_of_reached reached))
  · exact .inl after

theorem idle_lose (letters : List Letter) : Idle w (w.lose letters) := by
  intro j errand stage after reached
  rw [view_lose] at after
  split at after
  · exact .inl (view_of_receive after (unreplied_of_reached reached))
  · exact .inl after

theorem view_pushTask {task : Task} (h : w.pushTask task = .ok w') (i : Nat) :
    w'.view i = w.view i := by
  obtain ⟨sealer, -, -, -, rfl⟩ := pushTask_eq_ok h
  rfl

theorem view_fire (w : World) (owner : Owner) (j : Nat) :
    (w.fire owner).view j = w.view j ∨ ∃ errand chain due,
      w.view j = some (errand, .producing chain due) ∧
        (w.fire owner).view j = some (errand, .producing chain true) := by
  unfold fire
  split
  · split <;> exact .inl rfl
  · exact .inl rfl
  · next _ i =>
    by_cases hij : i = j
    · subst hij
      cases found : w.calls[i]? with
      | none => exact .inl (by simp [view, found])
      | some call =>
        obtain ⟨errand, stage, reported⟩ := call
        cases stage with
        | producing chain due =>
          exact .inr ⟨errand, chain, due, by simp [view, found], by simp [view, found, Call.fall]⟩
        | _ => exact .inl (by simp [view, found, Call.fall])
    · exact .inl (by simp [view, hij])

theorem idle_fire (owner : Owner) : Idle w (w.fire owner) := by
  intro j errand stage after reached
  rcases view_fire w owner j with same | ⟨errand', chain, due, -, producing⟩
  · exact .inl (same.symm.trans after)
  · rw [producing] at after
    obtain ⟨-, rfl⟩ := Prod.mk.inj (Option.some.inj after)
    rcases reached with h | ⟨_, h⟩ <;> cases h

theorem idle_act (step : Act w e w') : Idle w w' := by
  cases step with
  | @make errand =>
    intro i errand' stage after reached
    rw [view_makeCall] at after
    split at after
    · obtain ⟨-, rfl⟩ := Prod.mk.inj (Option.some.inj after)
      rcases reached with h | ⟨_, h⟩ <;> cases h
    · exact .inl after
  | @post intake message =>
    intro i errand' stage after _
    by_cases new : i = w.calls.length
    · exact .inr (view_eq_none_of_le (Nat.le_of_eq new.symm))
    · rw [view_setStage, if_neg (Ne.symm new)] at after
      have same := view_makeCall w .letter i
      rw [if_neg new] at same
      exact .inl (same.symm.trans after)
  | abort => exact idle_setStage _ (by simp) (by simp)
  | push pushed => exact idle_of_view (view_pushTask pushed)
  | resolve => exact idle_deliver (w := { w with engine := _ }) _ _
  | drop => exact idle_lose (w := { w with intake := _ }) _
  | ring => exact idle_fire (w := { w with now := _, timers := _ }) _
  | report => exact idle_of_view (view_markReported w)
  | signal | receive | abandon | join | setHashrate | take | read | detach | pass =>
    exact idle_of_view fun _ => rfl

/-! ## Turns -/

/-- On its turn a call that does not get room comes to no place at which it waits. -/
theorem callMove_cases {i : Nat} {call : Call} (h : w.callMove i call = some w') :
    Idle w w' ∨ ∃ message intake, call.stage = .waiting message ∧ w.intake = some intake ∧
      intake.signalled = false ∧ intake.attended = true ∧ intake.hasRoom message.kind 0 = true ∧
      w' = { w with intake := some (intake.put ⟨i, message⟩) }.setStage i .sent := by
  obtain ⟨errand, stage, reported⟩ := call
  have finished : ∀ answer, Idle w (w.finish i answer) := by
    intro answer
    exact idle_setStage i (by simp) (by simp)
  cases stage with
  | waiting message =>
    simp only [callMove] at h
    split at h
    · obtain rfl := Option.some.inj h
      exact .inl (finished _)
    next intake hi =>
    split at h
    · obtain rfl := Option.some.inj h
      exact .inl (finished _)
    next opened =>
    split at h
    · next room =>
      simp only [Bool.or_eq_true, not_or, Bool.not_eq_true, Bool.not_eq_false'] at opened
      exact .inr ⟨message, intake, rfl, hi, opened.1, opened.2, room, (Option.some.inj h).symm⟩
    · cases h
  | replied reply =>
    obtain rfl := Option.some.inj h
    exact .inl (finished _)
  | watching =>
    simp only [callMove] at h
    split at h
    · obtain rfl := Option.some.inj h
      exact .inl (finished _)
    · cases h
  | producing chain due =>
    cases due with
    | false => cases h
    | true =>
      simp only [callMove] at h
      split at h
      · next interval next pushed =>
        obtain rfl := Option.some.inj h
        obtain ⟨sealer, -, -, -, rfl⟩ := pushTask_eq_ok pushed
        exact .inl (idle_setStage (w := w) i (by simp) (by simp))
      · obtain rfl := Option.some.inj h
        exact .inl (finished _)
  | made | sent | finished => cases h

theorem idle_workerMove (h : w.workerMove = some w') : Idle w w' := by
  unfold workerMove at h
  split at h
  · next sealer intake engine hi =>
    split at h
    · cases h
    split at h
    · obtain rfl := Option.some.inj h
      exact idle_lose (w := { w with engine := _, intake := _ }) _
    split at h
    · obtain rfl := Option.some.inj h
      exact idle_of_view fun _ => rfl
    split at h
    · obtain rfl := Option.some.inj h
      exact idle_deliver (w := { w with engine := _, intake := _ }) _ _
    split at h
    · obtain rfl := Option.some.inj h
      exact idle_of_view fun _ => rfl
    · cases h
  · cases h

theorem idle_releaseMove (h : w.releaseMove = some w') : Idle w w' := by
  unfold releaseMove at h
  split at h
  · obtain rfl := Option.some.inj h
    exact idle_of_view fun _ => rfl
  · cases h

/-- The call that takes its turn is the first that can. -/
theorem anyCallMove_eq_some (h : w.anyCallMove = some w') :
    ∃ i call, w.calls[i]? = some call ∧ w.callMove i call = some w' ∧
      ∀ j other, w.calls[j]? = some other → (w.callMove j other).isSome → i ≤ j := by
  obtain ⟨before, ⟨call, i⟩, after, split, turn, none⟩ := List.findSome?_eq_some_iff.mp h
  have here : (call, i) ∈ w.calls.zipIdx := by
    rw [split]
    exact List.mem_append_right _ List.mem_cons_self
  have found : w.calls[i]? = some call := List.mem_zipIdx_iff_getElem?.mp here
  refine ⟨i, call, found, turn, ?_⟩
  intro j other found' can
  by_contra earlier
  have sorted : (w.calls.zipIdx.map Prod.snd).Pairwise (· < ·) := by
    rw [List.zipIdx_map_snd]
    exact List.pairwise_lt_range'
  have there : (other, j) ∈ w.calls.zipIdx := List.mem_zipIdx_iff_getElem?.mpr found'
  rw [split] at sorted there
  rcases List.mem_append.mp there with first | later
  · have cannot : w.callMove j other = .none := none _ first
    rw [cannot] at can
    cases can
  · rw [List.map_append, List.pairwise_append, List.map_cons, List.pairwise_cons] at sorted
    rcases List.mem_cons.mp later with same | later
    · obtain ⟨-, rfl⟩ := Prod.mk.inj same
      exact earlier (Nat.le_refl _)
    · have less := sorted.2.1.1 j (List.mem_map_of_mem later)
      exact earlier (Nat.le_of_lt less)

theorem inTurn_move (h : w.move = some w') : InTurn w w' := by
  rw [move, Option.or_eq_some_iff] at h
  rcases h with h | ⟨-, h⟩
  · obtain ⟨i, call, found, turn, first⟩ := anyCallMove_eq_some h
    rcases callMove_cases turn with idle | ⟨message, intake, waits, hi, quiet, attended, room, rfl⟩
    · exact idle.inTurn
    have view : w.view i = some (call.errand, .waiting message) := waits ▸ view_eq_some found
    have others (j : Nat) (h : i ≠ j) :
        ({ w with intake := some (intake.put ⟨i, message⟩) }.setStage i .sent).view j
          = w.view j := by
      rw [view_setStage, if_neg h]
      rfl
    constructor
    · rintro j other ⟨request, form, fresh⟩ ⟨errand, waits'⟩
      by_cases h : i = j
      · subst h
        have apart := view.symm.trans fresh
        simp at apart
      · rw [others j h, fresh] at waits'
        cases waits'
    · rintro j other ⟨errand, waits'⟩ ⟨errand', sent⟩ k third ⟨errand'', waits''⟩ kind
      obtain rfl : i = j := by
        by_contra h
        rw [others j h, waits'] at sent
        cases sent
      obtain rfl : message = other := by
        rw [view] at waits'
        simpa using congrArg (Option.map Prod.snd) waits'
      -- Whoever waits for room in the same channel could take the turn as well.
      obtain ⟨call', found', -, stage⟩ := exists_call waits''
      apply first k call' found'
      simp [callMove, stage, hi, quiet, attended, kind, room]
  · rcases Option.or_eq_some_iff.mp h with h | ⟨-, h⟩
    · exact (idle_workerMove h).inTurn
    · exact (idle_releaseMove h).inTurn

theorem fresh_begin {i j : Nat} (h : (w.begin i).Fresh j) : w.Fresh j ∧ i ≠ j := by
  obtain ⟨request, form, after⟩ := h
  obtain ⟨before, other⟩ := view_begin_eq_made (by simp) after
  exact ⟨⟨request, form, before⟩, other⟩

theorem inTurn_begin {i : Nat} (first : ∀ j, w.Fresh j → i ≤ j) : InTurn w (w.begin i) := by
  rcases begin_cases w i with ⟨call, stage, found, made, step, same⟩ | ⟨same, -⟩
  · rw [same]
    have view : w.view i = some (call.errand, .made) := made ▸ view_eq_some found
    constructor
    · rintro j message ⟨request, form, fresh⟩ ⟨errand, waits⟩
      by_cases here : i = j
      · exact here ▸ first
      · rw [view_setStage, if_neg here, fresh] at waits
        cases waits
    · rintro j message ⟨errand, waits⟩ ⟨errand', sent⟩
      by_cases here : i = j
      · subst here
        have apart := view.symm.trans waits
        simp at apart
      · rw [view_setStage, if_neg here, waits] at sent
        cases sent
  · rw [same]
    exact (idle_of_view fun _ => rfl).inTurn

/-- Calls that are told to begin in the order in which they were made begin in turn, if no other
call has not begun. -/
theorem inTurn_foldl_begin {indices : List Nat} (sorted : indices.Pairwise (· < ·))
    (all : ∀ j, w.Fresh j → j ∈ indices) : ReachesBy InTurn leaver w (indices.foldl begin w) := by
  induction indices generalizing w with
  | nil => exact .refl w
  | cons i rest ih =>
    obtain ⟨first, sorted⟩ := List.pairwise_cons.mp sorted
    have turn : InTurn w (w.begin i) := by
      apply inTurn_begin
      intro j fresh
      rcases List.mem_cons.mp (all j fresh) with rfl | later
      · exact Nat.le_refl _
      · exact Nat.le_of_lt (first j later)
    have begun : ReachesBy InTurn leaver w (w.begin i) := by
      rcases begin_move_or_eq w i with ⟨e, step⟩ | same
      · exact .of_move step turn
      · rw [same]
        exact .refl w
    refine begun.trans (ih sorted ?_)
    intro j fresh
    obtain ⟨before, other⟩ := fresh_begin fresh
    exact (List.mem_cons.mp (all j before)).resolve_left other.symm

theorem sorted_notBegun (w : World) : w.notBegun.Pairwise (· < ·) := by
  have sorted : (w.calls.zipIdx.map Prod.snd).Pairwise (· < ·) := by
    rw [List.zipIdx_map_snd]
    exact List.pairwise_lt_range'
  refine List.Pairwise.filterMap _ ?_ (List.pairwise_map.mp sorted)
  rintro ⟨call, i⟩ ⟨call', i'⟩ less j hj j' hj'
  simp only [] at hj hj'
  split at hj
  · split at hj'
    · obtain rfl := Option.some.inj hj
      obtain rfl := Option.some.inj hj'
      exact less
    · cases hj'
  · cases hj

theorem mem_notBegun {i : Nat} (fresh : w.Fresh i) : i ∈ w.notBegun := by
  obtain ⟨request, form, fresh⟩ := fresh
  obtain ⟨call, found, -, made⟩ := exists_call fresh
  refine List.mem_filterMap.mpr ⟨(call, i), List.mem_zipIdx_iff_getElem?.mpr found, ?_⟩
  simp only [made]

theorem inTurn_settle (w : World) : ReachesBy InTurn leaver w w.settle :=
  .trans (reachesBy_run inTurn_move _ _)
    (.trans (inTurn_foldl_begin (sorted_notBegun _) fun _ => mem_notBegun)
      (reachesBy_run inTurn_move _ _))

theorem inTurn_sleep (w : World) (duration : Nat) : ReachesBy InTurn leaver w (w.sleep duration) :=
  .trans (inTurn_settle w)
    (reachesBy_advance inTurn_move (fun step => (idle_act step).inTurn) _ _ _)

/-- **In a session calls take their turns in order**, and only those callers go away that were
aborted. -/
theorem inTurn_session (w : World) (actions : List (Bool × Action)) :
    ∃ log, w.RunBy InTurn log (w.settle.after actions) ∧
      ∀ i, .aborted i ∈ log → Action.abort i ∈ actions.map Prod.snd :=
  exists_runBy_session ⟨fun step _ => (idle_act step).inTurn, inTurn_settle⟩ inTurn_sleep w actions

end MinerGateway.World
