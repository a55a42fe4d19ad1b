import Mathlib.Data.List.Forall2
import MinerGateway.Proofs.AcceptedWork
import MinerGateway.Proofs.ByteCodec
import MinerGateway.Proofs.Cutoff
import MinerGateway.Proofs.Operations
import MinerGateway.Proofs.RpcMethods

/-!
The extra nonce of a solution is carried as its text denotes it, or nothing is sent.

`ExtraNonce.Spells` says what an extra nonce stands for; a text that stands for nothing is
malformed. A solution with a malformed one is turned away before anything is looked at: whatever the
engine and its state, the caller is told at once that it is not accepted, and all else is as it
would be without the call (`turnsAway`); no letter of the call is ever anywhere (`Tracked.unheard`).
Any other solution has one message, with what its extra nonce stands for, and never sends another
(`Tracked.sendsOnly`); and what leaves a sealer for it is sealed with the same (`eq_of_emitted`).

Correspondence (the way of an extra nonce ↔ definition):
  none, or the bytes that a text denotes      ↔ `Spells`
  a text that is there and denotes no bytes   ↔ `Malformed`
  turned away, and nothing else is touched    ↔ `TurnsAway`, `Unheard`
  the value that was put out for a submission ↔ `Emitted`

No length is prescribed: an extra nonce may have any number of bytes, also none.
-/

namespace MinerGateway

namespace ExtraNonce

/-- What an extra nonce stands for: an absent one for none, and a text for the bytes that its digits
denote. -/
inductive Spells : Option String → Option (List UInt8) → Prop where
  | absent : Spells none none
  | present {text : String} {row : List Char} {bytes : List UInt8} (marked : Hex.Marked text row)
    (denotes : Hex.Denotes row bytes) : Spells (some text) (some bytes)

/-- The text is there, but it is no mark with an even number of digits behind it. -/
def Malformed (extraNonce : Option String) : Prop :=
  ∃ text, extraNonce = some text ∧
    ¬∃ row, Hex.Marked text row ∧ row.length % 2 = 0 ∧ Hex.AllDigits row

variable {extraNonce : Option String} {bytes : Option (List UInt8)}

theorem decode_eq_ok_iff :
    Request.decodeExtraNonce extraNonce = .ok bytes ↔ Spells extraNonce bytes := by
  cases extraNonce with
  | none =>
    constructor
    · intro read
      obtain rfl := Except.ok.inj read
      exact .absent
    · intro spells
      cases spells
      rfl
  | some text =>
    constructor
    · intro read
      cases found : Hex.decode text with
      | error cause => simp [Request.decodeExtraNonce, found, Except.map] at read
      | ok found' =>
        simp only [Request.decodeExtraNonce, found, Except.map] at read
        obtain rfl := Except.ok.inj read
        obtain ⟨row, marked, denotes⟩ := Hex.decode_eq_ok_iff.mp found
        exact .present marked denotes
    · intro spells
      cases spells with
      | present marked denotes =>
        rw [Request.decodeExtraNonce, Hex.decode_eq_ok_iff.mpr ⟨_, marked, denotes⟩]
        rfl

theorem Spells.unique {bytes' : Option (List UInt8)} (h : Spells extraNonce bytes)
    (h' : Spells extraNonce bytes') : bytes = bytes' :=
  Except.ok.inj ((decode_eq_ok_iff.mpr h).symm.trans (decode_eq_ok_iff.mpr h'))

/-- An extra nonce stands for something or is malformed, and not both. -/
theorem exists_spells_iff : (∃ bytes, Spells extraNonce bytes) ↔ ¬Malformed extraNonce := by
  constructor
  · rintro ⟨bytes, spells⟩ ⟨text, rfl, nothing⟩
    cases spells with
    | present marked denotes =>
      exact nothing ⟨_, marked, Hex.exists_denotes_iff.mp ⟨_, denotes⟩⟩
  · intro fine
    cases extraNonce with
    | none => exact ⟨none, .absent⟩
    | some text =>
      by_contra nothing
      refine fine ⟨text, rfl, ?_⟩
      rintro ⟨row, marked, digits⟩
      obtain ⟨bytes, denotes⟩ := Hex.exists_denotes_iff.mpr digits
      exact nothing ⟨some bytes, .present marked denotes⟩

end ExtraNonce

open ExtraNonce

variable {nonce : Nonce} {hash digest : Hash} {extraNonce : Option String}
  {bytes : Option (List UInt8)}

theorem Request.message?_of_spells (spells : Spells extraNonce bytes) :
    (Request.submitWork nonce hash digest extraNonce).message?
      = some (.submission ⟨nonce, hash, digest, bytes⟩) := by
  simp only [message?, decode_eq_ok_iff.mpr spells]

theorem Request.message?_of_malformed (malformed : Malformed extraNonce) :
    (Request.submitWork nonce hash digest extraNonce).message? = none := by
  cases read : decodeExtraNonce extraNonce with
  | error cause => simp only [message?, read]
  | ok bytes => exact absurd malformed (exists_spells_iff.mp ⟨bytes, decode_eq_ok_iff.mp read⟩)

namespace World

variable {w : World} {log : List Event} {i : Nat} {request : Request} {form : Form} {stage : Stage}

/-- A miner's call begins with its message, or by being told that it has none. -/
theorem begin_miner (connected : w.intake ≠ none)
    (hv : w.view i = some (.miner request form, .made)) :
    w.begin i = w.setStage i
      (request.message?.elim (.finished (form.tell (.accepted false))) .waiting) := by
  obtain ⟨call, found, errand, made⟩ := exists_call hv
  obtain ⟨stage, first, begun⟩ := begin_eq found made (by simp [errand])
  rw [begun]
  rw [errand] at first
  cases first with
  | unsupported none => exact absurd none connected
  | malformed _ none => rw [none, Option.elim_none]
  | wait _ own => rw [own, Option.elim_some]

/-! ## Malformed -/

/-- The action makes a call that is told that it is not accepted as soon as the gateway settles, and
leaves everything else as it would be: channels, those who wait for room in them, engine, and all
other calls. -/
structure TurnsAway (w : World) (action : Action) (request : Request) (form : Form) : Prop where
  made : w.perform action = (.ok (.call w.calls.length), w.beside { errand := .miner request form })
  settled : (w.perform action).2.settle = w.settle.beside
    { errand := .miner request form, stage := .finished (form.tell (.accepted false)) }
  told : (w.step false action).1.done
    = w.settle.unreported ++ [(w.calls.length, form.tell (.accepted false))]

/-- **A request without a message is turned away at once**, whatever the engine is and in whatever
state. -/
theorem turnsAway (attached : w.attached = true) {action : Action}
    (miner : action.miner? = some (request, form)) (silent : request.message? = none) :
    w.TurnsAway action request form := by
  have made : w.perform action
      = (.ok (.call w.calls.length), w.beside { errand := .miner request form }) :=
    perform_miner attached miner
  obtain ⟨settled, told⟩ := answered_beside attached made fun connected =>
    first_of_message? silent form connected _
  exact ⟨made, settled, told⟩

/-- What becomes of a call that has no message. -/
structure Unheard (w : World) (log : List Event) (i : Nat) (form : Form) (stage : Stage) :
    Prop where
  stages : stage = .made ∨ stage = .finished (form.tell (.accepted false)) ∨
    (stage = .finished .aborted ∧ .aborted i ∈ log)
  /-- It is told as soon as it begins. -/
  begins : stage = .made → w.begin i = w.finish i (form.tell (.accepted false))
  ends : w.Settled → stage ≠ .made
  unsent : entries (history i log) = []
  nowhere : ∀ message, ⟨i, message⟩ ∉ w.queued ++ w.held

theorem Tracked.unheard (tracked : w.Tracked log)
    (hv : w.view i = some (.miner request form, stage))
    (silent : request.message? = none) : w.Unheard log i form stage := by
  obtain ⟨place, -, life⟩ := tracked.life hv
  have mute : ∀ message, ¬(Errand.miner request form).Writes message := by
    intro message writes
    cases silent.symm.trans writes
  have unsent : entries (history i log) = [] := by
    apply List.eq_nil_iff_forall_not_mem.mpr
    intro message sent
    exact mute message (life.writes.2 message sent)
  have nowhere : ∀ message, ⟨i, message⟩ ∉ w.queued ++ w.held := by
    intro message there
    cases silent.symm.trans ((tracked.fate hv).onTheWay message there).1
  refine ⟨?_, ?_, ?_, unsent, nowhere⟩
  · rcases life.stage_of_silent mute with made | watching | ⟨chain,
      due, producing⟩ | ⟨answer, finished⟩
    · exact .inl made
    · cases life.errand_of_alone.1 watching
    · obtain ⟨interval, other⟩ := life.errand_of_alone.2 chain due producing
      cases other
    · subst finished
      by_cases gone : answer = .aborted
      · subst gone
        exact .inr (.inr ⟨rfl, mem_of_aborted_mem_history life.aborted_mem⟩)
      · rcases (life.answer_of_finished gone).2 with ⟨-, -, told⟩ | ⟨message, -, -, own, -⟩
        · rw [Request.failure_of_message? silent] at told
          exact .inr (.inl (congrArg Stage.finished told))
        · cases silent.symm.trans own
  · rintro rfl
    rw [begin_miner tracked.connected hv, silent]
    rfl
  · rintro settled rfl
    rcases (tracked.fate hv).settled settled with ⟨answer, other⟩ | ⟨message, there⟩ |
      ⟨message, -, other, -⟩
    · cases other
    · exact nowhere message there
    · cases other

/-! ## The message of a solution -/

/-- The call has this message and no other, wherever it keeps it or has sent it. -/
structure SendsOnly (w : World) (log : List Event) (i : Nat) (message : Message) (stage : Stage) :
    Prop where
  begins : stage = .made → w.begin i = w.setStage i (.waiting message)
  waits : ∀ other, stage = .waiting other → other = message
  sends : entries (history i log) = [] ∨ entries (history i log) = [message]
  awaits : stage = .sent → ⟨i, message⟩ ∈ w.queued ++ w.held
  onTheWay : ∀ other, ⟨i, other⟩ ∈ w.queued ++ w.held → other = message

theorem Tracked.sendsOnly (tracked : w.Tracked log)
    (hv : w.view i = some (.miner request form, stage))
    {message : Message} (own : request.message? = some message) :
    w.SendsOnly log i message stage := by
  obtain ⟨place, lies, life⟩ := tracked.life hv
  have fate := tracked.fate hv
  have same : ∀ other, request.message? = some other → other = message := by
    intro other other's
    exact Option.some.inj (other's.symm.trans own)
  refine ⟨?_, fun other waiting => same other (life.writes.1 other waiting), ?_, ?_,
    fun other there => same other (fate.onTheWay other there).1⟩
  · rintro rfl
    rw [begin_miner tracked.connected hv, own]
    rfl
  · have one := fate.entries_le
    have all := fate.own
    generalize entries (history i log) = sent at one all ⊢
    match sent, one with
    | [], _ => exact .inl rfl
    | [other], _ =>
      obtain rfl := same other (all other List.mem_cons_self)
      exact .inr rfl
  · rintro rfl
    obtain ⟨other, letter⟩ := life.message?_of_sent
    have there : ⟨i, other⟩ ∈ w.queued ++ w.held := by
      cases place with
      | nowhere => cases letter
      | queued =>
        obtain rfl := Option.some.inj letter
        exact List.mem_append_left _ lies
      | held =>
        obtain rfl := Option.some.inj letter
        exact List.mem_append_right _ lies
    obtain rfl := same other (fate.onTheWay other there).1
    exact there

/-! ## What leaves the sealer -/

/-- The value was put on the channel of accepted solutions for the submission of call `i`. -/
def Emitted (log : List Event) (i : Nat) (work : SealedWork) : Prop :=
  ∃ a : Acceptance, (a, work) ∈ (acceptances log).zip (puts log) ∧ a.sender = i

variable {settings : EngineSettings} {verifier : Verifier}

theorem forall_mem_zip (run : (started settings verifier).Run log w) :
    (acceptances log).length = (puts log).length ∧
      ∀ a work, (a, work) ∈ (acceptances log).zip (puts log) → a.Carries work := by
  obtain ⟨s, -, passes⟩ := run.passes_start
  obtain ⟨length, carries⟩ := List.forall₂_iff_zip.mp passes.carries_puts
  exact ⟨length, fun _ _ there => carries there⟩

/-- **Sealed work carries what its sender asked for**, the extra nonce as its text denotes it. -/
theorem eq_of_emitted (run : (started settings verifier).Run log w)
    (hv : w.view i = some (.miner (.submitWork nonce hash digest extraNonce) form, stage))
    {work : SealedWork} (emitted : Emitted log i work) :
    work.sealHash = hash ∧ work.nonce = nonce ∧ work.mixDigest = digest ∧
      Spells extraNonce work.extraNonce := by
  obtain ⟨a, there, rfl⟩ := emitted
  obtain ⟨task, -, -, sealHash, sealNonce, mixDigest, extra⟩ := (forall_mem_zip run).2 a work there
  obtain ⟨rfl, rfl, rfl, read⟩ := own_submission run (List.of_mem_zip there).1 hv
  rw [extra]
  exact ⟨sealHash, sealNonce, mixDigest, decode_eq_ok_iff.mp read⟩

/-- Work is sealed for whoever is told that its solution was accepted. -/
theorem exists_emitted (run : (started settings verifier).Run log w)
    (hv : w.view i = some (.miner (.submitWork nonce hash digest extraNonce) form,
      .finished (form.tell (.accepted true)))) : ∃ work, Emitted log i work := by
  have accepted : i ∈ (acceptances log).map Acceptance.sender := by
    rcases accepted_iff run hv with ⟨gone, -⟩ | ⟨yes, told, iff⟩
    · exact absurd gone (form.tell_ne_aborted _)
    · obtain rfl : true = yes := by simpa using Form.tell_injective told
      exact List.append_nil log ▸ (iff [] w .refl).mp rfl
  obtain ⟨a, there, own⟩ := List.mem_map.mp accepted
  rw [← List.map_fst_zip (Nat.le_of_eq (forall_mem_zip run).1)] at there
  obtain ⟨⟨a, work⟩, paired, rfl⟩ := List.mem_map.mp there
  exact ⟨work, a, paired, own⟩

/-! ## Carried exactly, or not at all -/

/-- **The extra nonce is carried exactly, or nothing is sent.** Every session on an engine with a
boundary is a run. An extra nonce is malformed or stands for one thing. With a malformed one, a
solution is turned away at once in every state of every engine, and along every run no letter of its
call is anywhere. With any other, its call has the one message that carries what the extra nonce
stands for; and in front of a sealer, whatever is put on the channel of accepted solutions for it
carries the same. -/
theorem extra_nonce_exact (nonce : Nonce) (hash digest : Hash) (extraNonce : Option String) :
    (∀ (opening : Opening) actions, ∃ log,
      opening.world.Run log (opening.world.settle.after actions)) ∧
    (Malformed extraNonce →
      (∀ (w : World) action form, w.attached = true →
        action.miner? = some (.submitWork nonce hash digest extraNonce, form) →
        w.TurnsAway action (.submitWork nonce hash digest extraNonce) form) ∧
      ∀ (opening : Opening) log w, opening.world.Run log w → ∀ i form stage,
        w.view i = some (.miner (.submitWork nonce hash digest extraNonce) form, stage) →
        w.Unheard log i form stage) ∧
    (¬Malformed extraNonce → ∃ bytes, Spells extraNonce bytes ∧
      (∀ bytes', Spells extraNonce bytes' → bytes' = bytes) ∧
      (∀ (opening : Opening) log w, opening.world.Run log w → ∀ i form stage,
        w.view i = some (.miner (.submitWork nonce hash digest extraNonce) form, stage) →
        w.SendsOnly log i (.submission ⟨nonce, hash, digest, bytes⟩) stage) ∧
      ∀ settings verifier log w, (started settings verifier).Run log w → ∀ i form stage,
        w.view i = some (.miner (.submitWork nonce hash digest extraNonce) form, stage) →
        (∀ work, Emitted log i work →
          work.sealHash = hash ∧ work.nonce = nonce ∧ work.mixDigest = digest ∧
          work.extraNonce = bytes) ∧
        (stage = .finished (form.tell (.accepted true)) → ∃ work, Emitted log i work)) := by
  refine ⟨?_, fun malformed => ?_, fun fine => ?_⟩
  · intro opening actions
    obtain ⟨log, run, -⟩ := exists_run_session opening.world actions
    exact ⟨log, run⟩
  · have silent : (Request.submitWork nonce hash digest extraNonce).message? = none :=
      Request.message?_of_malformed malformed
    constructor
    · intro w action form attached miner
      exact turnsAway attached miner silent
    · intro opening log w run i form stage hv
      exact (run.tracked opening.tracked).unheard hv silent
  · obtain ⟨bytes, spells⟩ := exists_spells_iff.mpr fine
    refine ⟨bytes, spells, fun bytes' spells' => spells'.unique spells, ?_, ?_⟩
    · intro opening log w run i form stage hv
      exact (run.tracked opening.tracked).sendsOnly hv (Request.message?_of_spells spells)
    · intro settings verifier log w run i form stage hv
      constructor
      · intro work emitted
        obtain ⟨sealHash, sealNonce, mixDigest, extra⟩ := eq_of_emitted run hv emitted
        exact ⟨sealHash, sealNonce, mixDigest, extra.unique spells⟩
      · rintro rfl
        exact exists_emitted run hv

def proposal (extraNonce : Option String) : Request :=
  .submitWork (.filled 8 2) (.filled 32 1) (.filled 32 1) extraNonce

def proposed (bytes : Option (List UInt8)) : Message :=
  .submission ⟨.filled 8 2, .filled 32 1, .filled 32 1, bytes⟩

def blank : List (Bool × Action) :=
  [(false, .push ⟨.filled 32 1, 5, .empty⟩), (false, .request (proposal (some "0x")))]

/-- The channel is full with a solution whose extra nonce has no digits, and one without an extra
nonce waits for room; one with three digits is turned away. At a sealer, no digits are sealed as no
bytes. -/
theorem extra_nonce_exact_full :
    let w := (Opening.script 1).world.settle.after
      [(false, .request (proposal (some "0x"))), (false, .request (proposal none))]
    w.TurnsAway (.request (proposal (some "0xabc"))) (proposal (some "0xabc")) .direct ∧
      (∃ log, (Opening.script 1).world.Run log w ∧ w.SendsOnly log 0 (proposed (some [])) .sent ∧
        w.SendsOnly log 1 (proposed none) (.waiting (proposed none))) ∧
      ∃ log work, (started {} .acceptAll).Run log ((started {} .acceptAll).settle.after blank) ∧
        Emitted log 0 work ∧ work.extraNonce = some [] := by
  intro w
  have mark : Hex.Marked "0x" [] := .inl rfl
  have empty : Spells (some "0x") (some []) := .present mark .nil
  obtain ⟨sessions, -, carried⟩ :=
    extra_nonce_exact (.filled 8 2) (.filled 32 1) (.filled 32 1) (some "0x")
  obtain ⟨bytes, -, unique, sends, sealed⟩ := carried (exists_spells_iff.mp ⟨_, empty⟩)
  obtain rfl := unique _ empty
  obtain ⟨-, -, absent⟩ := extra_nonce_exact (.filled 8 2) (.filled 32 1) (.filled 32 1) none
  obtain ⟨bytes, -, unique, waits, -⟩ := absent (exists_spells_iff.mp ⟨_, .absent⟩)
  obtain rfl := unique _ .absent
  have odd : Malformed (some "0xabc") := by
    have three : Hex.Marked "0xabc" ['a', 'b', 'c'] := .inl rfl
    refine ⟨_, rfl, ?_⟩
    rintro ⟨row, marked, even, -⟩
    obtain rfl := marked.unique three
    cases even
  obtain ⟨-, turned, -⟩ :=
    extra_nonce_exact (.filled 8 2) (.filled 32 1) (.filled 32 1) (some "0xabc")
  refine ⟨(turned odd).1 w _ .direct rfl rfl, ?_, ?_⟩
  · obtain ⟨log, run⟩ := sessions (.script 1) _
    exact ⟨log, run, sends _ log w run 0 .direct _ rfl, waits _ log w run 1 .direct _ rfl⟩
  · have told : ((started {} .acceptAll).settle.after blank).view 0
        = some (.miner (proposal (some "0x")) .direct, .finished (.outcome (.accepted true))) := rfl
    obtain ⟨log, run⟩ := sessions (.sealer {} .acceptAll) blank
    obtain ⟨same, accepted⟩ := sealed {} .acceptAll log _ run 0 .direct _ told
    obtain ⟨work, emitted⟩ := accepted rfl
    exact ⟨log, work, run, emitted, (same work emitted).2.2.2⟩

end World

end MinerGateway
