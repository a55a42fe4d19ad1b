import Mathlib.Data.List.DropRight
import MinerGateway.Proofs.DevnetChain
import MinerGateway.Proofs.HexRoundTrip
import MinerGateway.Proofs.RpcMethods
import MinerGateway.Proofs.Serving
import MinerGateway.Proofs.Verdict

/-!
Mining on a source of synthetic work.

If what was pushed are the first tasks of a fresh source (`Sequential.Sourced`), a task stands as
long as fewer than `threshold` tasks came after it (`standing`), a solution for it is accepted
exactly so long (`mined`), and a cleanup leaves the last `threshold` tasks (`pending_cleanup`). No
sum saturates, because the threshold may be added to every number. In front of a gateway
(`World.Mines`), the miner names the task by the first text of its package, which is read back as
its seal hash (`Rpc.Call.Submits.request`): `synthetic_work_mined` puts this together.

What is proved (`synthetic_work_mined`), after the first `count` tasks of a fresh source, whatever
else was done in between:
  1. the `n`-th task has the number `n`;
  2. a solution submitted with the first text of its package is told to be accepted exactly if
     fewer than `staleThreshold` tasks came after it, and comes out with its number and seal hash;
  3. after a cleanup the pending tasks are the last ones, `staleThreshold` of them at most.

What is assumed: the digests that come up are distinct, the number and the threshold have a sum
within 64 bits, every solution passes the verifier, and the channel of results has room. The digest
is otherwise any function.
-/

namespace MinerGateway

open Devnet (Digest)

/-- The first tasks of a fresh source. -/
abbrev synthetic (digest : Digest) (count : Nat) : List Task :=
  Devnet.Chain.tasks digest count .start

namespace Sequential

/-- What was pushed are the first `count` tasks of a fresh source, no two with the same seal hash,
and the threshold may be added to their numbers. -/
structure Sourced (digest : Digest) (threshold : UInt64) (count : Nat) (history : List Operation) :
    Prop where
  pushed : pushes history = synthetic digest count
  distinct : ((synthetic digest count).map Task.sealHash).Nodup
  fits : count + threshold.toNat < UInt64.size

namespace Sourced

variable {digest : Digest} {threshold : UInt64} {count index : Nat}
  {history : List Operation} {task other : Task}

theorem index_lt (found : (synthetic digest count)[index]? = some task) : index < count := by
  have inside := (List.getElem?_eq_some_iff.mp found).1
  rwa [Devnet.Chain.length_tasks] at inside

theorem number_eq (h : Sourced digest threshold count history)
    (found : (synthetic digest count)[index]? = some task) : task.number.toNat = index + 1 := by
  have fits := h.fits
  have inside := index_lt found
  have first : Devnet.Chain.start.next.toNat = 1 := rfl
  rw [Devnet.Chain.number_of_tasks (by omega) found, first, Nat.add_comm]

theorem last_eq (h : Sourced digest threshold count history) (positive : 1 ≤ count) :
    ∃ last, (pushes history).getLast? = some last ∧ last.number.toNat = count := by
  have length : (synthetic digest count).length = count := Devnet.Chain.length_tasks ..
  have inside : count - 1 < (synthetic digest count).length := by omega
  have found := List.getElem?_eq_getElem inside
  refine ⟨_, ?_, (h.number_eq found).trans (by omega)⟩
  rw [h.pushed, List.getLast?_eq_getElem?, length, found]

theorem unique (h : Sourced digest threshold count history) (there : task ∈ synthetic digest count)
    (there' : other ∈ synthetic digest count) (same : task.sealHash = other.sealHash) :
    task = other :=
  List.inj_on_of_nodup_map h.distinct there there' same

theorem number_le (h : Sourced digest threshold count history)
    (there : other ∈ synthetic digest count) :
    other.number.toNat ≤ count := by
  obtain ⟨place, found⟩ := List.getElem?_of_mem there
  rw [h.number_eq found]
  exact index_lt found

/-- The sum of a number and the threshold does not saturate in a way that one of the tasks could
tell. -/
theorem lt_addSat_iff (h : Sourced digest threshold count history)
    (found : (synthetic digest count)[index]? = some task) (other : Task) :
    other.number < Word.addSat task.number threshold ↔
    other.number.toNat < index + 1 + threshold.toNat := by
  have fits := h.fits
  have inside := index_lt found
  rw [UInt64.lt_iff_toNat_lt, Word.toNat_addSat, h.number_eq found]
  omega

/-- Fewer than `threshold` tasks came after the one at an index, by the numbers as the worker
compares them. -/
theorem recent_iff (h : Sourced digest threshold count history)
    (found : (synthetic digest count)[index]? = some task) :
    (∀ last, (pushes history).getLast? = some last →
      last.number < Word.addSat task.number threshold) ↔
      count < index + 1 + threshold.toNat := by
  have inside := index_lt found
  obtain ⟨last, pushed, number⟩ := h.last_eq (by omega)
  have reach := h.lt_addSat_iff found last
  rw [number] at reach
  simp only [pushed, Option.some.injEq, forall_eq', reach]

/-- **A task stands as long as fewer than `threshold` came after it.** -/
theorem standing (h : Sourced digest threshold count history)
    (found : (synthetic digest count)[index]? = some task)
    (within : count < index + 1 + threshold.toNat) :
    Standing threshold task history := by
  obtain ⟨_, same⟩ := List.getElem?_eq_some_iff.mp found
  have parts : pushes history = (synthetic digest count).take index
      ++ task :: (synthetic digest count).drop (index + 1) := by
    rw [h.pushed, ← same, List.getElem_cons_drop, List.take_append_drop]
  obtain ⟨early, late, rfl, -, after⟩ := split_of_pushes parts
  have distinct := h.distinct
  rw [← h.pushed, parts, List.map_append, List.map_cons] at distinct
  have others : ((synthetic digest count).drop (index + 1)).Sublist (synthetic digest count) :=
    List.drop_sublist ..
  apply standing_of_recent
  · -- The tasks after this one have other hashes.
    rw [after]
    intro other there same
    have later := (List.nodup_append.mp distinct).2.1
    exact (List.nodup_cons.mp later).1 (List.mem_map.mpr ⟨other, there, same⟩)
  · -- No number that was pushed reaches that of this task and the threshold.
    rw [after]
    intro other there
    have pushed : other ∈ synthetic digest count := by
      rcases List.mem_cons.mp there with rfl | there
      · exact List.mem_of_getElem? found
      · exact others.subset there
    have most := h.number_le pushed
    exact (h.lt_addSat_iff found other).mpr (by omega)

theorem mem_rtake_iff :
    task ∈ (synthetic digest count).rtake (min count threshold.toNat) ↔
      ∃ index, (synthetic digest count)[index]? = some task ∧
      count < index + 1 + threshold.toNat := by
  have length : (synthetic digest count).length = count := Devnet.Chain.length_tasks ..
  rw [List.rtake, length, List.mem_iff_getElem?]
  constructor
  · rintro ⟨place, found⟩
    rw [List.getElem?_drop] at found
    exact ⟨_, found, by omega⟩
  · rintro ⟨index, found, within⟩
    refine ⟨index - (count - min count threshold.toNat), ?_⟩
    rw [List.getElem?_drop]
    rwa [show count - min count threshold.toNat + (index - (count - min count threshold.toNat))
      = index by
      omega]

section Worker

variable {settings : EngineSettings} {s : Submission}

/-- **A solution for one of the tasks is acceptable exactly if fewer than `threshold` tasks came
after it.** -/
theorem acceptable_iff (h : Sourced digest settings.staleThreshold count history)
    (found : (synthetic digest count)[index]? = some task) (hash : s.hash = task.sealHash) :
    Acceptable settings.staleThreshold .acceptAll history s task ↔
      count < index + 1 + settings.staleThreshold.toNat := by
  rw [← h.recent_iff found]
  constructor
  · exact fun acceptable => acceptable.recent
  · intro recent
    exact ⟨named_iff.mpr ⟨h.standing found ((h.recent_iff found).mp recent), hash.symm⟩,
      rfl, recent⟩

theorem mem_of_standing (h : Sourced digest threshold count history)
    (standing : Standing threshold other history) :
    other ∈ synthetic digest count :=
  h.pushed ▸ List.mem_of_mem_filter (List.mem_of_getLast? standing.lastUnder)

theorem named_eq (h : Sourced digest threshold count history)
    (found : (synthetic digest count)[index]? = some task)
    (named : Named threshold history task.sealHash other) : other = task :=
  h.unique (h.mem_of_standing named.standing) (List.mem_of_getElem? found) named.same

/-- **What the worker answers to a solution for one of the tasks**, and what comes out of it. -/
theorem mined (h : Sourced digest settings.staleThreshold count history)
    (found : (synthetic digest count)[index]? = some task) (hash : s.hash = task.sealHash)
    (there : .abandon ∉ history)
    (room : (start settings .acceptAll).unreceived history < max settings.resultsCapacity 1)
    (now : Nat) :
    let q := (start settings .acceptAll).after history
    ∃ verdict, (q.apply (.serve now (.submission s))).1 = .reply (.verdict verdict) ∧
      (verdict = .ok () ↔ count < index + 1 + settings.staleThreshold.toNat) ∧
      (q.apply (.serve now (.submission s))).2.outbox.queue = q.outbox.queue
        ++ if count < index + 1 + settings.staleThreshold.toNat then [task.sealedBy s] else [] := by
  intro q
  have window := h.acceptable_iff found hash
  by_cases within : count < index + 1 + settings.staleThreshold.toNat
  · have decided : Decides settings .acceptAll history s (.ok ()) :=
      .accepted (window.mpr within) there room
    obtain ⟨other, named, applied⟩ := decided.accepts now
    obtain rfl := h.named_eq found (hash ▸ named)
    exact ⟨_, congrArg Prod.fst applied, iff_of_true rfl within, by rw [applied, if_pos within]⟩
  · obtain ⟨verdict, decided⟩ := exists_decides settings .acceptAll history s
    cases verdict with
    | error error =>
      have applied := decided.refuses now
      refine ⟨_, congrArg Prod.fst applied, iff_of_false nofun within, ?_⟩
      rw [applied, if_neg within, List.append_nil]
    | ok =>
      cases decided with
      | accepted acceptable =>
        obtain rfl := h.named_eq found (hash ▸ acceptable.named)
        exact absurd (window.mp acceptable) within

/-- **What a cleanup leaves are the last `threshold` tasks.** -/
theorem pending_cleanup (h : Sourced digest settings.staleThreshold count history) (now : Nat) :
    (((start settings .acceptAll).after history).apply (.cleanup now)).2.ledger.pending.Perm
      ((synthetic digest count).rtake (min count settings.staleThreshold.toNat)) := by
  have nodup := nodup_hashes_after settings .acceptAll (history ++ [.cleanup now])
  have member := mem_pending_after settings .acceptAll (history ++ [.cleanup now])
  rw [after_concat] at nodup member
  have kept : ((synthetic digest count).rtake (min count settings.staleThreshold.toNat)).Sublist
      (synthetic digest count) := List.drop_sublist ..
  rw [List.perm_ext_iff_of_nodup nodup.of_map (h.distinct.of_map.sublist kept)]
  intro task
  rw [member, standing_concat, mem_rtake_iff]
  constructor
  · rintro (push | ⟨standing, -, recent⟩)
    · cases push
    · obtain ⟨index, found⟩ := List.getElem?_of_mem (h.mem_of_standing standing)
      exact ⟨index, found, (h.recent_iff found).mp (recent now rfl)⟩
  · rintro ⟨index, found, within⟩
    refine .inr ⟨h.standing found within, nofun, ?_⟩
    intro _ _
    exact (h.recent_iff found).mpr within

end Worker

end Sourced

end Sequential

/-! ## In front of a gateway -/

/-- A call that submits a solution with this text for the hash, and with texts for all else that are
read as these values. -/
structure Rpc.Call.Submits (call : Rpc.Call) (hash : String) (nonce : Nonce) (digest : Hash)
    (extraNonce : Option (List UInt8)) : Prop where
  method : call.method = "eth_submitWork"
  texts : ∃ nonceText digestText extraText,
    Rpc.submitWorkTexts? call.params = some (nonceText, hash, digestText, extraText) ∧
      Nonce.parse nonceText = .ok nonce ∧ Hash.parse digestText = .ok digest ∧
      Request.decodeExtraNonce extraText = .ok extraNonce

theorem Rpc.Call.Submits.request {call : Rpc.Call} {hash digest : Hash} {nonce : Nonce}
    {extraNonce : Option (List UInt8)} (h : call.Submits hash.text nonce digest extraNonce) :
    ∃ extraText,
      Errand.ofRpc (some call) = .miner (.submitWork nonce hash digest extraText) (.rpc call.id) ∧
      (Request.submitWork nonce hash digest extraText).message?
        = some (.submission ⟨nonce, hash, digest, extraNonce⟩) := by
  obtain ⟨nonceText, digestText, extraText, texts, hn, hd, he⟩ := h.texts
  have invokes : call.invocation = .ok (.request (.submitWork nonce hash digest extraText)) := by
    rw [World.invocation_submitWork h.method texts,
      Rpc.submitWork_eq_ok extraText hn (FixedBytes.parse_text hash) hd]
    rfl
  refine ⟨extraText, ?_, ?_⟩
  · simp only [Errand.ofRpc, invokes]
  · simp only [Request.message?, he]

theorem Request.outcome_verdict {nonce : Nonce} {hash digest : Hash} {extraText : Option String}
    {verdict : Except SealingError Unit} {p : Prop} [Decidable p] (h : verdict = .ok () ↔ p) :
    (Request.submitWork nonce hash digest extraText).outcome (.verdict verdict)
      = .accepted (decide p) := by
  cases verdict with
  | ok => rw [decide_eq_true (h.mp rfl)]; rfl
  | error error => rw [decide_eq_false (mt h.mpr nofun)]; rfl

/-- There is a consumer of accepted solutions, and room for one more. -/
structure Sealer.HasRoom (s : Sealer) : Prop where
  attended : s.outbox.attended = true
  room : s.outbox.queue.length < s.outbox.capacity

namespace World

/-- What the worker replied to a call is what the call is told once the gateway has settled, unless
the caller went away. -/
theorem told_of_served {settings : EngineSettings} {verifier : Verifier}
    {w : World} {log : List Event} (run : (started settings verifier).Run log w) {i now : Nat}
    {message : Message} {before after : Sealer}
    {reply : Reply} (h : .served now ⟨i, message⟩ before after reply ∈ log)
    {request : Request} {form : Form}
    {stage : Stage} (hv : w.view i = some (.miner request form, stage)) (settled : w.Settled)
    (stayed : .aborted i ∉ log) : stage = .finished (form.tell (request.outcome reply)) := by
  have tracked := run.tracked (tracked_started settings verifier)
  obtain ⟨s, engine, -⟩ := run.passes_start
  obtain ⟨answer, rfl⟩ :=
    finished_of_settled settled (sound_run run (sound_started ..)) tracked engine hv
  have kept : answer ≠ .aborted := by
    rintro rfl
    rcases tracked.answer hv with ⟨outcome, told⟩ | ⟨-, gone⟩
    · exact Form.tell_ne_aborted _ _ told.symm
    · exact stayed gone
  -- There was one reply, which is this one.
  obtain ⟨-, replied⟩ := own_of_served run h hv
  obtain ⟨place, -, life⟩ := tracked.life hv
  rcases (life.answer_of_finished kept).2 with ⟨-, none, -⟩ | ⟨-, reply', -, -, one, -, told⟩
  · rw [none] at replied
    cases replied
  · rw [one] at replied
    rw [told, List.mem_singleton.mp replied]

/-- A run of a sealer that accepts every solution and was given the first `count` tasks of a fresh
source. Their seal hashes differ, and the threshold may be added to their numbers. -/
structure Mines (settings : EngineSettings) (digest : Digest)
    (count : Nat) (log : List Event) (w : World) : Prop where
  run : (started settings .acceptAll).Run log w
  pushed : pushedTasks log = synthetic digest count
  distinct : ((synthetic digest count).map Task.sealHash).Nodup
  fits : count + settings.staleThreshold.toNat < UInt64.size

namespace Mines

variable {settings : EngineSettings} {digest : Digest}
  {count index : Nat} {log : List Event} {w : World} {s : Sealer} {task : Task}

theorem sourced (h : Mines settings digest count log w) :
    Sequential.Sourced digest settings.staleThreshold count (operationsOf log) :=
  ⟨(pushes_entriesOf log log).trans h.pushed, h.distinct, h.fits⟩

theorem sequential_eq (h : Mines settings digest count log w) (engine : w.engine = .sealer s)
    (running : s.loop = .running) :
    s.sequential = (Sequential.start settings .acceptAll).after (operationsOf log) := by
  obtain ⟨s', engine', passes⟩ := h.run.passes_start
  obtain rfl := Engine.sealer.inj (engine.symm.trans engine')
  exact passes.sequential_eq running

/-- **What the worker replies to a solution for one of the tasks**, and what comes out of it. -/
theorem serve (h : Mines settings digest count log w) (engine : w.engine = .sealer s)
    (running : s.loop = .running) (queue : s.tasks = []) (room : s.HasRoom)
    (found : (synthetic digest count)[index]? = some task) (now : Nat) (sub : Submission)
    (hash : sub.hash = task.sealHash) :
    ∃ verdict, (s.serve now (.submission sub)).2 = .verdict verdict ∧
      (verdict = .ok () ↔ count < index + 1 + settings.staleThreshold.toNat) ∧
      (s.serve now (.submission sub)).1.outbox.queue = s.outbox.queue
        ++ if count < index + 1 + settings.staleThreshold.toNat
          then [task.sealedBy sub] else [] := by
  have same := h.sequential_eq engine running
  have outbox : ((Sequential.start settings .acceptAll).after (operationsOf log)).outbox
      = s.outbox :=
    congrArg Sequential.outbox same.symm
  have balanced := Sequential.balanced_after settings .acceptAll (operationsOf log)
  have length := Sequential.length_queue_after (outbox ▸ room.attended)
  rw [outbox] at balanced length
  have free := room.room
  rw [length, balanced.capacity] at free
  obtain ⟨verdict, answered, accepted, emitted⟩ :=
    h.sourced.mined found hash (balanced.attended.mp room.attended) free now
  rw [← same, s.apply_serve queue] at answered emitted
  exact ⟨verdict, Operation.Result.reply.inj answered, accepted, emitted⟩

/-- **A miner who comes alone is told whether fewer than `threshold` tasks came after the one that
is solved**, and if so, the solution comes out. -/
theorem step_submit (h : Mines settings digest count log w)
    (settled : w.Settled) (attached : w.attached = true)
    (engine : w.engine = .sealer s) (running : s.loop = .running) (room : s.HasRoom)
    (found : (synthetic digest count)[index]? = some task)
    {call : Rpc.Call} {nonce : Nonce} {mix : Hash} {extraNonce : Option (List UInt8)}
    (submits : call.Submits task.sealHash.text nonce mix extraNonce) :
    (w.calls.length, .response ⟨call.id, .ok (.accepted
        (decide (count < index + 1 + settings.staleThreshold.toNat)))⟩)
        ∈ (w.step false (.rpc (some call))).1.done ∧
      ∃ s', (w.step false (.rpc (some call))).2.engine = .sealer s' ∧
        s'.outbox.queue = s.outbox.queue
          ++ if count < index + 1 + settings.staleThreshold.toNat then
            [⟨task.sealHash, task.number, nonce, mix, extraNonce⟩] else [] := by
  have sound : w.Sound := sound_run h.run (sound_started ..)
  have tracked : w.Tracked log := h.run.tracked (tracked_started ..)
  have attended : w.Attended := .of_settled settled sound tracked attached engine
  have calmed : w.Calmed s := .of_settled settled sound engine running
  obtain ⟨extraText, errand, writes⟩ := submits.request
  have miner : Action.miner? (.rpc (some call))
      = some (.submitWork nonce task.sealHash mix extraText, .rpc call.id) := by
    simp only [Action.miner?, errand]
  obtain ⟨-, told, served⟩ := step_call attended settled engine running miner writes
  obtain ⟨verdict, answered, accepted, emitted⟩ :=
    h.serve engine running calmed.tasks room found w.now ⟨nonce, task.sealHash, mix, extraNonce⟩ rfl
  rw [answered, Request.outcome_verdict accepted] at told
  exact ⟨told, _, served, emitted⟩

/-- **What is left after a cleanup.** -/
theorem cleaned (h : Mines settings digest count log w) {now : Nat}
    {w' : World} (step : Step w (.cleaned now) w') :
    ∃ s', w'.engine = .sealer s' ∧
      s'.ledger.pending.Perm
        ((synthetic digest count).rtake (min count settings.staleThreshold.toNat)) := by
  obtain ⟨s, engine, passes⟩ := h.run.passes_start
  obtain ⟨s', engine', takes⟩ := takes_step step (h.run.tracked (tracked_started ..)) engine
  refine ⟨s', engine', ?_⟩
  cases takes with
  | cleaned running queue =>
    have same := h.sequential_eq engine running
    have left := h.sourced.pending_cleanup now
    rw [← same] at left
    simpa [Sequential.apply, Sealer.sequential, queue] using left
  | apart other => cases other

/-- **A solution that the worker takes up at any moment** has the same fate, whatever is done before
and after. -/
theorem served (h : Mines settings digest count log w) {i now : Nat}
    {message : Message} {before after : Sealer}
    {reply : Reply} {w' : World} (step : Step w (.served now ⟨i, message⟩ before after reply) w')
    (room : before.HasRoom) (found : (synthetic digest count)[index]? = some task) {call : Rpc.Call}
    {nonce : Nonce} {mix : Hash} {extraNonce : Option (List UInt8)}
    (submits : call.Submits task.sealHash.text nonce mix extraNonce) {stage : Stage}
    (made : w.view i = some (.ofRpc (some call), stage)) :
    after.outbox.queue = before.outbox.queue
        ++ (if count < index + 1 + settings.staleThreshold.toNat then
          [⟨task.sealHash, task.number, nonce, mix, extraNonce⟩] else []) ∧
      ∀ back w'', w'.Run back w'' → w''.Settled → .aborted i ∉ log ++ back →
        w''.view i = some (.ofRpc (some call), .finished (.response ⟨call.id, .ok (.accepted
          (decide (count < index + 1 + settings.staleThreshold.toNat)))⟩)) := by
  obtain ⟨extraText, errand, writes⟩ := submits.request
  rw [errand] at made ⊢
  have tracked : w.Tracked log := h.run.tracked (tracked_started ..)
  have run := h.run.next step
  have there : Event.served now ⟨i, message⟩ before after reply
      ∈ log ++ [.served now ⟨i, message⟩ before after reply] :=
    List.mem_append_right _ List.mem_cons_self
  -- The message is the call's own.
  obtain ⟨stage', made', -⟩ := tracked.view_run (.single step) made
  obtain rfl : _ = message := Option.some.inj (writes.symm.trans (own_of_served run there made').1)
  obtain ⟨s, engine, passes⟩ := h.run.passes_start
  obtain ⟨s', engine', takes⟩ := takes_step step tracked engine
  cases takes with
  | apart other => cases other
  | served running queue =>
    obtain ⟨verdict, answered, accepted, emitted⟩ := h.serve engine running queue room found now
      ⟨nonce, task.sealHash, mix, extraNonce⟩ rfl
    refine ⟨emitted, ?_⟩
    intro back w'' later settled stayed
    obtain ⟨stage'', made'', -⟩ := tracked.view_run ((Run.single step).trans later) made
    have told := told_of_served (run.trans later) (List.mem_append_left _ there) made'' settled
      (by simpa using stayed)
    rw [answered, Request.outcome_verdict accepted] at told
    rw [made'', told]
    rfl

end Mines

/-- **Mining on synthetic work, end to end.** After the first `count` tasks of a fresh source were
pushed, whatever else was done to the gateway before, between and after: the `n`-th task has the
number `n`, and `eth_submitWork` with the first text of its package is told that the solution was
accepted exactly if fewer than `staleThreshold` tasks came after it. Then the solution comes out
under the number and the seal hash of the task, and else nothing does. This holds of a miner who
comes alone, who is told at once, and of every call whose solution is taken up in the meantime, as
soon as the gateway has settled; each provided that there is room for the solution. Right after
every cleanup, the last `staleThreshold` tasks are pending and nothing else is. -/
theorem synthetic_work_mined (settings : EngineSettings)
    (digest : Digest) {count : Nat} {log : List Event}
    {w : World} (mines : Mines settings digest count log w) :
    (∀ n, 1 ≤ n → n ≤ count → ∃ task, (synthetic digest count)[n - 1]? = some task ∧
      task.number.toNat = n ∧
      ∀ (call : Rpc.Call) hash nonce mix extraNonce, task.package.field? 0 = some hash →
        call.Submits hash nonce mix extraNonce →
        let within := count < n + settings.staleThreshold.toNat
        let told := Answer.response ⟨call.id, .ok (.accepted (decide within))⟩
        let emitted := if within then [⟨task.sealHash, task.number, nonce, mix, extraNonce⟩] else []
        (∀ s, w.Settled → w.attached = true → w.engine = .sealer s → s.loop = .running → s.HasRoom →
          (w.calls.length, told) ∈ (w.step false (.rpc (some call))).1.done ∧
            ∃ s', (w.step false (.rpc (some call))).2.engine = .sealer s' ∧
              s'.outbox.queue = s.outbox.queue ++ emitted) ∧
        ∀ now i message before after reply w' stage,
          Step w (.served now ⟨i, message⟩ before after reply) w' → before.HasRoom →
          w.view i = some (.ofRpc (some call), stage) →
          after.outbox.queue = before.outbox.queue ++ emitted ∧
            ∀ back w'', w'.Run back w'' → w''.Settled → .aborted i ∉ log ++ back →
              w''.view i = some (.ofRpc (some call), .finished told)) ∧
      ∀ now w', Step w (.cleaned now) w' → ∃ s', w'.engine = .sealer s' ∧
        s'.ledger.pending.Perm
          ((synthetic digest count).rtake (min count settings.staleThreshold.toNat)) := by
  refine ⟨?_, fun now w' => mines.cleaned⟩
  intro n positive bounded
  have length : (synthetic digest count).length = count := Devnet.Chain.length_tasks ..
  have found := List.getElem?_eq_getElem (l := synthetic digest count) (i := n - 1) (by omega)
  have place : n - 1 + 1 = n := by omega
  refine ⟨_, found, (mines.sourced.number_eq found).trans place, ?_⟩
  intro call hash nonce mix extraNonce text submits
  obtain rfl : _ = hash := (Devnet.Chain.powHash_of_tasks found).symm.trans (Option.some.inj text)
  refine ⟨fun s settled attached engine running room => ?_,
    fun now i message before after reply w' stage step room made => ?_⟩
  · have alone := mines.step_submit settled attached engine running room found submits
    rwa [place] at alone
  · have served := mines.served step room found submits made
    rwa [place] at served

def solution (hash : String) : Rpc.Call where
  id := .number 1
  method := "eth_submitWork"
  params := some (.array [.string "0x0000000000000001", .string hash, .string Hash.zero.text])

/-- Two tasks can be pushed one after the other and handled, and then nothing is left to do. -/
theorem exists_run_pushed (first second : Task) :
    ∃ log w s, (started { staleThreshold := 1 } .acceptAll).Run log w ∧
    pushedTasks log = [first, second] ∧
      w.Settled ∧ w.attached = true ∧ w.engine = .sealer s ∧ s.loop = .running ∧ s.HasRoom := by
  have start : (started { staleThreshold := 1 } .acceptAll).Run [] _ := .refl
  have pushed := start.next (.act (show Act _ (.pushed first) _ from .push rfl))
  have pushed' := pushed.next (.act (show Act _ (.pushed second) _ from .push rfl))
  have handled := pushed'.next (.move (.handle ⟨rfl, rfl, rfl⟩ rfl rfl))
  have handled' := handled.next (.move (.handle ⟨rfl, rfl, rfl⟩ rfl rfl))
  have cleaned := handled'.next (.move (.clean ⟨rfl, rfl, rfl⟩ rfl rfl rfl rfl))
  refine ⟨_, _, _, cleaned, rfl, settled_of_move_eq_none rfl ?_,
    rfl, rfl, rfl, rfl, Nat.zero_lt_succ _⟩
  intro i call found
  cases found

/-- With a threshold of one, after two tasks the first is stale and the second is not. -/
theorem synthetic_work_mined_at_two :
    let first := Devnet.Chain.start.task Sha256.digest
    let second := (Devnet.Chain.start.advance Sha256.digest).task Sha256.digest
    ∃ log w, (started { staleThreshold := 1 } .acceptAll).Run log w ∧
    pushedTasks log = [first, second] ∧
      (w.calls.length, .response ⟨.number 1, .ok (.accepted false)⟩)
        ∈ (w.step false (.rpc (some (solution first.package.powHash)))).1.done ∧
      (w.calls.length, .response ⟨.number 1, .ok (.accepted true)⟩)
        ∈ (w.step false (.rpc (some (solution second.package.powHash)))).1.done := by
  intro first second
  obtain ⟨log, w, s, run, pushed, settled, attached, engine, running, room⟩ :=
    exists_run_pushed first second
  have distinct : ((synthetic Sha256.digest 2).map Task.sealHash).Nodup := by decide +kernel
  have mines : Mines { staleThreshold := 1 } Sha256.digest 2 log w :=
    ⟨run, pushed, distinct, by decide⟩
  have submits : ∀ hash, (solution hash).Submits hash (Nonce.ofUInt64 1) Hash.zero none := by
    intro hash
    exact ⟨rfl, _, _, _,
      Rpc.submitWorkTexts?_array _ _ _ none, by decide +kernel, by decide +kernel, rfl⟩
  have told := (synthetic_work_mined _ _ mines).1
  obtain ⟨_, found, -, stale⟩ := told 1 (by decide) (by decide)
  obtain rfl := Option.some.inj found
  obtain ⟨_, found', -, recent⟩ := told 2 (by decide) (by decide)
  obtain rfl := Option.some.inj found'
  refine ⟨log, w, run, pushed, ?_, ?_⟩
  · exact ((stale _ _ _ _ _ rfl (submits _)).1 s settled attached engine running room).1
  · exact ((recent _ _ _ _ _ rfl (submits _)).1 s settled attached engine running room).1

end World

end MinerGateway
