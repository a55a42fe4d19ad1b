import MinerGateway.Proofs.Transition

/-!
The life of one call.

`history i log` is what a log says about call `i` and its letter, and nothing about any other call.
`Life` lists the histories that a call can have, together with its stage and the place of its
letter. From it follows what a call's answer depends on: a letter is taken at most once and replied
to at most once, a call finishes at most once, and its answer is made from the reply to its own
letter, or says that the engine has stopped if the letter never went out
(`Life.answer_of_finished`).

Correspondence (a call ↔ definition):
  what happens to it or to its letter                  ↔ `Happening`
  where its letter is: nowhere, in a channel, in hands ↔ `Place`
  replies that its message can have                    ↔ `Message.Fits`

Nothing here speaks of a whole gateway. That the calls of a gateway have such lives is proved where
their letters are tracked (`tracked_step`); every statement about one call is then a case analysis
of `Life`.
-/

namespace MinerGateway

/-- Something that happened to a call or to its letter. -/
inductive Happening where
  | made (errand : Errand)
  | entered (message : Message)
  | taken
  | replied (message : Message) (reply : Reply)
  | finished (answer : Answer)
  /-- The caller went away. -/
  | aborted

/-- What an event means for call `i`. -/
def Event.happenings (i : Nat) : Event → List Happening
  | .made call errand => if call = i then [.made errand] else []
  | .posted letter => if letter.sender = i then [.made .letter, .entered letter.message] else []
  | .entered letter => if letter.sender = i then [.entered letter.message] else []
  | .taken letter => if letter.sender = i then [.taken] else []
  | .served _ letter _ _ reply => if letter.sender = i then [.replied letter.message reply] else []
  | .resolved letter reply => if letter.sender = i then [.replied letter.message reply] else []
  | .ended lost | .dropped lost =>
    (lost.filter (·.sender = i)).map fun letter => .replied letter.message .lost
  | .finished call _ answer => if call = i then [.finished answer] else []
  | .aborted call => if call = i then [.aborted] else []
  | _ => []

/-- What a log says about call `i`, the oldest first. -/
def history (i : Nat) (log : List Event) : List Happening := log.flatMap (Event.happenings i)

/-- Where the letter of a call is. -/
inductive Place where
  /-- It was not handed over so far, or it is gone. -/
  | nowhere
  | queued (message : Message)
  | held (message : Message)
  deriving DecidableEq

/-- What the letter says, wherever it is. -/
def Place.message? : Place → Option Message
  | .nowhere => none
  | .queued message | .held message => some message

/-- The replies that a message can have. -/
def Message.Fits : Message → Reply → Prop
  | _, .lost => True
  | .fetch, .work _ => True
  | .submission _, .verdict _ => True
  | .report _, .recorded => True
  | _, _ => False

/-- What a stage adds to the history of a call that comes to it on its own. -/
def Stage.conclusion : Stage → List Happening
  | .finished answer => [.finished answer]
  | _ => []

/-- The histories of a call, with the stage it is at and the place of its letter. -/
inductive Life (errand : Errand) : List Happening → Stage → Place → Prop where
  | made (h : errand ≠ .letter) : Life errand [.made errand] .made .nowhere
  | posted {message} (h : errand = .letter) :
    Life errand [.made errand, .entered message] .sent (.queued message)
  | advance {w past stage stage'} (life : Life errand past stage .nowhere)
      (connected : w.intake ≠ none) (h : Advances w errand stage stage') :
    Life errand (past ++ stage'.conclusion) stage' .nowhere
  | produce {past chain due chain' due'} (life : Life errand past (.producing chain due) .nowhere) :
    Life errand past (.producing chain' due') .nowhere
  | enter {past message} (life : Life errand past (.waiting message) .nowhere) :
    Life errand (past ++ [.entered message]) .sent (.queued message)
  | take {past stage message} (life : Life errand past stage (.queued message)) :
    Life errand (past ++ [.taken]) stage (.held message)
  | reply {past place message reply} (life : Life errand past .sent place)
      (letter : place.message? = some message) (fit : message.Fits reply) :
    Life errand (past ++ [.replied message reply]) (.replied reply) .nowhere
  /-- The reply comes after the caller has gone. -/
  | late {past place message reply} (life : Life errand past (.finished .aborted) place)
      (letter : place.message? = some message) (fit : message.Fits reply) :
    Life errand (past ++ [.replied message reply]) (.finished .aborted) .nowhere
  | abort {past stage place} (life : Life errand past stage place)
      (unfinished : ∀ answer, stage ≠ .finished answer) :
    Life errand (past ++ [.aborted]) (.finished .aborted) place

/-! ## What a history contains -/

/-- The messages that went into a channel. -/
def entries (past : List Happening) : List Message :=
  past.filterMap fun | .entered message => some message | _ => none

/-- How often the letter was taken by hand. -/
def takings (past : List Happening) : Nat :=
  past.countP fun | .taken => true | _ => false

def replies (past : List Happening) : List Reply :=
  past.filterMap fun | .replied _ reply => some reply | _ => none

def answers (past : List Happening) : List Answer :=
  past.filterMap fun | .finished answer => some answer | .aborted => some .aborted | _ => none

section

variable (past more : List Happening)

@[simp] theorem entries_append : entries (past ++ more) = entries past ++ entries more :=
  List.filterMap_append ..

@[simp] theorem takings_append : takings (past ++ more) = takings past + takings more :=
  List.countP_append ..

@[simp] theorem replies_append : replies (past ++ more) = replies past ++ replies more :=
  List.filterMap_append ..

@[simp] theorem answers_append : answers (past ++ more) = answers past ++ answers more :=
  List.filterMap_append ..

@[simp] theorem history_append (i : Nat) (log log' : List Event) :
    history i (log ++ log') = history i log ++ history i log' :=
  List.flatMap_append ..

@[simp] theorem history_singleton (i : Nat) (e : Event) : history i [e] = e.happenings i :=
  List.append_nil _

end

def Stage.answers : Stage → List Answer
  | .finished answer => [answer]
  | _ => []

/-- How much of the way of its letter lies behind a call. -/
inductive Posted : Stage → Place → List Message → Nat → List Reply → Prop where
  /-- No letter went out. -/
  | unsent {stage} (h : stage ≠ .sent) (h' : ∀ reply, stage ≠ .replied reply) :
    Posted stage .nowhere [] 0 []
  | queued {stage message} (h : stage = .sent ∨ stage = .finished .aborted) :
    Posted stage (.queued message) [message] 0 []
  | held {stage message} (h : stage = .sent ∨ stage = .finished .aborted) :
    Posted stage (.held message) [message] 1 []
  | replied {stage message reply taken} (h : taken ≤ 1) (fit : message.Fits reply)
      (s : stage = .replied reply ∨ ∃ answer, stage = .finished answer) :
    Posted stage .nowhere [message] taken [reply]

namespace Posted

variable {stage stage' : Stage} {place : Place} {message : Message} {sent : List Message}
  {taken : Nat} {replied : List Reply}

theorem bounds (h : Posted stage place sent taken replied) :
    sent.length ≤ 1 ∧ taken ≤ 1 ∧ replied.length ≤ 1 := by
  cases h with
  | unsent | queued | held => simp
  | replied le => exact ⟨Nat.le_refl 1, le, Nat.le_refl 1⟩

/-- A letter on its way is the one that went out, and nobody has replied to it. -/
theorem of_message? (h : Posted stage place sent taken replied)
    (letter : place.message? = some message) :
    (stage = .sent ∨ stage = .finished .aborted) ∧ sent = [message] ∧ taken ≤ 1 ∧ replied = [] := by
  cases h with
  | queued s | held s =>
    obtain rfl := Option.some.inj letter
    exact ⟨s, rfl, by omega, rfl⟩
  | unsent | replied => cases letter

theorem of_unsent (h : Posted stage place sent taken replied) (unsent : stage ≠ .sent)
    (unreplied : ∀ reply, stage ≠ .replied reply)
    (unfinished : ∀ answer, stage ≠ .finished answer) :
    sent = [] ∧ taken = 0 ∧ replied = [] := by
  cases h with
  | unsent => exact ⟨rfl, rfl, rfl⟩
  | queued s | held s =>
    rcases s with s | s
    · exact absurd s unsent
    · exact absurd s (unfinished _)
  | replied _ _ s =>
    rcases s with s | ⟨answer, s⟩
    · exact absurd s (unreplied _)
    · exact absurd s (unfinished _)

theorem advance {w : World} {errand : Errand} (h : Posted stage .nowhere sent taken replied)
    (step : Advances w errand stage stage') : Posted stage' .nowhere sent taken replied := by
  cases step with
  | learn =>
    -- The one step that needs a reply: it is still the only one.
    cases h with
    | unsent _ unreplied => exact absurd rfl (unreplied _)
    | replied le fit => exact .replied le fit (.inr ⟨_, rfl⟩)
  | _ =>
    obtain ⟨rfl, rfl, rfl⟩ := h.of_unsent (by simp) (by simp) (by simp)
    exact .unsent (by simp) (by simp)

theorem take (h : Posted stage (.queued message) sent taken replied) :
    Posted stage (.held message) sent (taken + 1) replied := by
  cases h with
  | queued s => exact .held s

theorem abort (h : Posted stage place sent taken replied) :
    Posted (.finished .aborted) place sent taken replied := by
  cases h with
  | unsent => exact .unsent (by simp) (by simp)
  | queued => exact .queued (.inr rfl)
  | held => exact .held (.inr rfl)
  | replied le fit => exact .replied le fit (.inr ⟨_, rfl⟩)

end Posted

namespace Life

variable {errand : Errand} {past : List Happening} {stage : Stage} {place : Place}

theorem conclusion_silent (stage : Stage) :
    entries stage.conclusion = [] ∧ takings stage.conclusion = 0 ∧ replies stage.conclusion = [] ∧
      answers stage.conclusion = stage.answers := by
  cases stage <;> exact ⟨rfl, rfl, rfl, rfl⟩

theorem answers_eq (life : Life errand past stage place) : answers past = stage.answers := by
  induction life with
  | made => rfl
  | posted => rfl
  | @advance w past stage stage' _ _ h ih =>
    have before : stage.answers = [] := by cases h <;> rfl
    rw [answers_append, ih, before, (conclusion_silent stage').2.2.2, List.nil_append]
  | produce _ ih => exact ih
  | enter _ ih =>
    rw [answers_append, ih]
    rfl
  | take _ ih =>
    rw [answers_append, ih]
    exact List.append_nil _
  | reply _ _ _ ih =>
    rw [answers_append, ih]
    rfl
  | late _ _ _ ih =>
    rw [answers_append, ih]
    rfl
  | @abort past stage place _ unfinished ih =>
    have before : stage.answers = [] := by
      cases stage with
      | finished answer => exact absurd rfl (unfinished answer)
      | _ => rfl
    rw [answers_append, ih, before]
    rfl

/-- The letter of a call goes out once at most, is taken once at most and replied to once at most.
-/
theorem posted_of (life : Life errand past stage place) :
    Posted stage place (entries past) (takings past) (replies past) := by
  -- On the history: each happening takes the letter one step along its way, or leaves it alone.
  induction life with
  | made => exact .unsent (by simp) (by simp)
  | posted => exact .queued (.inl rfl)
  | @advance w past stage stage' _ _ h ih =>
    obtain ⟨hentries, htakings, hreplies, -⟩ := conclusion_silent stage'
    rw [entries_append, takings_append, replies_append, hentries, htakings, hreplies,
      List.append_nil, List.append_nil, Nat.add_zero]
    exact ih.advance h
  | produce _ ih =>
    obtain ⟨hentries, htakings, hreplies⟩ := ih.of_unsent (by simp) (by simp) (by simp)
    rw [hentries, htakings, hreplies]
    exact .unsent (by simp) (by simp)
  | enter _ ih =>
    obtain ⟨hentries, htakings, hreplies⟩ := ih.of_unsent (by simp) (by simp) (by simp)
    rw [entries_append, takings_append, replies_append, hentries, htakings, hreplies]
    exact .queued (.inl rfl)
  | @take past _ _ _ ih =>
    rw [entries_append, takings_append, replies_append]
    show Posted _ _ (entries past ++ []) (takings past + 1) (replies past ++ [])
    rw [List.append_nil, List.append_nil]
    exact ih.take
  | @reply past _ _ _ _ letter fit ih =>
    obtain ⟨-, hentries, htakings, hreplies⟩ := ih.of_message? letter
    rw [entries_append, takings_append, replies_append, hentries, hreplies]
    exact .replied htakings fit (.inl rfl)
  | @late past _ _ _ _ letter fit ih =>
    obtain ⟨-, hentries, htakings, hreplies⟩ := ih.of_message? letter
    rw [entries_append, takings_append, replies_append, hentries, hreplies]
    exact .replied htakings fit (.inr ⟨_, rfl⟩)
  | @abort past _ _ _ _ ih =>
    rw [entries_append, takings_append, replies_append]
    show Posted _ _ (entries past ++ []) (takings past + 0) (replies past ++ [])
    rw [List.append_nil, List.append_nil, Nat.add_zero]
    exact ih.abort

theorem head?_eq (life : Life errand past stage place) : past.head? = some (.made errand) := by
  induction life with
  | made => rfl
  | posted => rfl
  | produce _ ih => exact ih
  | advance _ _ _ ih | enter _ ih | take _ ih | reply _ _ _ ih | late _ _ _ ih | abort _ _ ih =>
    rw [List.head?_append, ih, Option.some_or]

/-- A letter on its way belongs to a call that waits for the reply or was aborted. -/
theorem stage_of_message? {message : Message} (life : Life errand past stage place)
    (h : place.message? = some message) : stage = .sent ∨ stage = .finished .aborted :=
  (life.posted_of.of_message? h).1

theorem message?_of_sent (life : Life errand past .sent place) :
    ∃ message, place.message? = some message := by
  cases life with
  | posted => exact ⟨_, rfl⟩
  | enter => exact ⟨_, rfl⟩
  | take => exact ⟨_, rfl⟩
  | advance _ _ h => cases h

end Life

/-- The message that a call for this errand would send. -/
def Errand.Writes : Errand → Message → Prop
  | .miner request _, message => request.message? = some message
  | .letter, _ => True
  | _, _ => False

namespace Life

variable {errand : Errand} {past : List Happening} {stage : Stage} {place : Place}

theorem writes (life : Life errand past stage place) :
    (∀ message, stage = .waiting message → errand.Writes message) ∧
      ∀ message ∈ entries past, errand.Writes message := by
  induction life with
  | made => exact ⟨by simp, by simp [entries]⟩
  | @posted message h =>
    refine ⟨by simp, ?_⟩
    intro message' _
    subst h
    trivial
  | @advance w past stage stage' _ connected h ih =>
    constructor
    · intro message hm
      subst hm
      cases h with
      | wait _ hm => exact hm
    · rw [entries_append, (conclusion_silent stage').1, List.append_nil]
      exact ih.2
  | produce _ ih => exact ⟨by simp, ih.2⟩
  | enter _ ih =>
    refine ⟨by simp, ?_⟩
    intro message hm
    rw [entries_append] at hm
    rcases List.mem_append.mp hm with hm | hm
    · exact ih.2 message hm
    · obtain rfl : message = _ := List.mem_singleton.mp hm
      exact ih.1 _ rfl
  | take _ ih =>
    rw [entries_append]
    exact ⟨ih.1, (List.append_nil (entries _)).symm ▸ ih.2⟩
  | abort _ _ ih | reply _ _ _ ih | late _ _ _ ih =>
    rw [entries_append]
    exact ⟨by simp, (List.append_nil (entries _)).symm ▸ ih.2⟩

theorem mem_entries_of_replied {message : Message} {reply : Reply}
    (life : Life errand past stage place) (h : .replied message reply ∈ past) :
    message ∈ entries past := by
  induction life with
  | made => simp at h
  | posted => simp at h
  | @advance w past stage stage' _ _ _ ih =>
    rw [entries_append]
    refine List.mem_append_left _ (ih ((List.mem_append.mp h).resolve_right ?_))
    cases stage' <;> simp [Stage.conclusion]
  | produce _ ih => exact ih h
  | enter _ ih | take _ ih | abort _ _ ih =>
    rw [entries_append]
    exact List.mem_append_left _ (ih ((List.mem_append.mp h).resolve_right (by simp)))
  | @reply past place message' reply' life letter _ ih
  | @late past place message' reply' life letter _ ih =>
    rw [entries_append]
    refine List.mem_append_left _ ?_
    rcases List.mem_append.mp h with h | h
    · exact ih h
    · obtain ⟨rfl, -⟩ := Happening.replied.inj (List.mem_singleton.mp h)
      rw [(life.posted_of.of_message? letter).2.1]
      exact List.mem_cons_self

/-- Only a call that waits for the exit signal watches, and only a source produces. -/
theorem errand_of_alone (life : Life errand past stage place) :
    (stage = .watching → errand = .watchExit) ∧
      ∀ chain due, stage = .producing chain due → ∃ interval, errand = .devnet interval := by
  induction life with
  | advance _ _ h =>
    cases h with
    | watch => exact ⟨fun _ => rfl, by simp⟩
    | source => exact ⟨by simp, fun _ _ _ => ⟨_, rfl⟩⟩
    | _ => exact ⟨by simp, by simp⟩
  | produce _ ih => exact ⟨by simp, fun _ _ _ => ih.2 _ _ rfl⟩
  | take _ ih => exact ih
  | _ => exact ⟨by simp, by simp⟩

theorem miner_of_waiting {message : Message} (life : Life errand past (.waiting message) place) :
    ∃ request form, errand = .miner request form ∧ request.message? = some message := by
  cases life with
  | advance _ _ h =>
    cases h with
    | wait _ hm => exact ⟨_, _, rfl, hm⟩
  | take life =>
    rcases life.stage_of_message? rfl with h | h <;> cases h

theorem eq_of_made_mem {errand' : Errand} (life : Life errand past stage place)
    (h : .made errand' ∈ past) : errand' = errand := by
  induction life with
  | made | posted => simpa using h
  | @advance w past stage stage' _ _ _ ih =>
    refine ih ((List.mem_append.mp h).resolve_right ?_)
    cases stage' <;> simp [Stage.conclusion]
  | produce _ ih => exact ih h
  | enter _ ih | take _ ih | abort _ _ ih | reply _ _ _ ih | late _ _ _ ih =>
    exact ih ((List.mem_append.mp h).resolve_right (by simp))

theorem errand_ne_letter (life : Life errand past .made place) : errand ≠ .letter := by
  generalize hs : Stage.made = stage at life
  induction life with
  | made h => exact h
  | advance _ _ h =>
    subst hs
    cases h
  | take _ ih => exact ih hs
  | _ => cases hs

theorem stage_of_unsent (life : Life errand past stage place) (unsent : entries past = []) :
    stage = .made ∨ (∃ message, stage = .waiting message) ∨ stage = .watching ∨
      (∃ chain due, stage = .producing chain due) ∨ ∃ answer, stage = .finished answer := by
  have posted := life.posted_of
  generalize takings past = taken, replies past = replied at posted
  rw [unsent] at posted
  cases stage with
  | made => exact .inl rfl
  | waiting message => exact .inr (.inl ⟨message, rfl⟩)
  | sent =>
    cases posted with
    | unsent h => exact absurd rfl h
  | replied reply =>
    cases posted with
    | unsent _ h => exact absurd rfl (h reply)
  | watching => exact .inr (.inr (.inl rfl))
  | producing chain due => exact .inr (.inr (.inr (.inl ⟨chain, due, rfl⟩)))
  | finished answer => exact .inr (.inr (.inr (.inr ⟨answer, rfl⟩)))

theorem stage_of_silent (life : Life errand past stage place)
    (silent : ∀ message, ¬errand.Writes message) :
    stage = .made ∨ stage = .watching ∨ (∃ chain due, stage = .producing chain due) ∨
      ∃ answer, stage = .finished answer := by
  have unsent : entries past = [] := by
    apply List.eq_nil_iff_forall_not_mem.mpr
    intro message sent
    exact silent message (life.writes.2 message sent)
  rcases life.stage_of_unsent unsent with made | ⟨message, waits⟩ | rest
  · exact .inl made
  · exact absurd (life.writes.1 message waits) (silent message)
  · exact .inr rest

theorem unsent (life : Life errand past stage .nowhere)
    (h : stage = .made ∨ ∃ message, stage = .waiting message) :
    entries past = [] ∧ replies past = [] := by
  rcases h with rfl | ⟨message, rfl⟩
  · obtain ⟨sent, -, replied⟩ := life.posted_of.of_unsent (by simp) (by simp) (by simp)
    exact ⟨sent, replied⟩
  · obtain ⟨sent, -, replied⟩ := life.posted_of.of_unsent (by simp) (by simp) (by simp)
    exact ⟨sent, replied⟩

end Life

/-- A request that makes no message is answered as if the engine had stopped. -/
theorem Request.failure_of_message? {request : Request} (h : request.message? = none)
    (error : SealingError) : request.failure error = .accepted false := by
  cases request with
  | getWork => cases h
  | submitWork => rfl
  | submitHashrate => rfl

theorem Request.outcome_lost (request : Request) :
    request.outcome .lost = request.failure .stopped := by
  cases request <;> rfl

theorem Form.tell_injective {form : Form} {outcome outcome' : Outcome}
    (h : form.tell outcome = form.tell outcome') : outcome = outcome' := by
  cases form with
  | direct => exact Answer.outcome.inj h
  | rpc id =>
    have same : Rpc.resultOf outcome = Rpc.resultOf outcome' := by simpa [Form.tell] using h
    rcases outcome with (_ | _) | _ <;> rcases outcome' with (_ | _) | _ <;>
      simp_all [Rpc.resultOf]

theorem Form.tell_ne_aborted (form : Form) (outcome : Outcome) : form.tell outcome ≠ .aborted := by
  cases form <;> simp [Form.tell]

namespace Life

variable {past : List Happening} {stage : Stage} {place : Place}

theorem aborted_mem {request : Request} {form : Form}
    (life : Life (.miner request form) past (.finished .aborted) place) : .aborted ∈ past := by
  generalize hs : Stage.finished .aborted = stage at life
  induction life with
  | advance before connected h =>
    subst hs
    have other : ∀ outcome, Answer.aborted ≠ form.tell outcome := by
      intro outcome
      exact (form.tell_ne_aborted outcome).symm
    generalize ha : Answer.aborted = answer at h
    cases h with
    | unsupported hi => exact absurd hi connected
    | malformed | refused | learn => exact absurd ha (other _)
    | exited => cases ha
    | stopped => cases ha
  | take _ ih => exact List.mem_append_left _ (ih hs)
  | late _ _ _ ih => exact List.mem_append_left _ (ih rfl)
  | abort => exact List.mem_append_right _ List.mem_cons_self
  | _ => cases hs

/-- **The answer of a miner's call is made from the reply to its own letter**, or says that the
engine has stopped when no letter went out. -/
theorem answer_of_finished {request : Request} {form : Form} {answer : Answer}
    (life : Life (.miner request form) past (.finished answer) place)
    (unaborted : answer ≠ .aborted) :
    place = .nowhere ∧
      ((entries past = [] ∧ replies past = [] ∧
          answer = form.tell (request.failure .stopped)) ∨
        ∃ message reply, entries past = [message] ∧ request.message? = some message ∧
          replies past = [reply] ∧ message.Fits reply ∧
          answer = form.tell (request.outcome reply)) := by
  cases life with
  | @advance w past stage _ before connected h =>
    refine ⟨rfl, ?_⟩
    have hentries : entries (past ++ (Stage.finished answer).conclusion) = entries past := by
      rw [entries_append]
      exact List.append_nil _
    have hreplies : replies (past ++ (Stage.finished answer).conclusion) = replies past := by
      rw [replies_append]
      exact List.append_nil _
    rw [hentries, hreplies]
    cases h with
    | unsupported hi => exact absurd hi connected
    | malformed _ hm =>
      obtain ⟨sent, replied⟩ := before.unsent (.inl rfl)
      exact .inl ⟨sent, replied, by rw [Request.failure_of_message? hm]⟩
    | refused =>
      obtain ⟨sent, replied⟩ := before.unsent (.inr ⟨_, rfl⟩)
      exact .inl ⟨sent, replied, congrArg form.tell request.outcome_lost⟩
    | @learn _ reply =>
      -- The reply that was learnt is the only one, and it came to the only message.
      have own := before.writes.2
      have posted := before.posted_of
      generalize entries past = sent, takings past = taken, replies past = replied
        at own posted ⊢
      cases posted with
      | unsent _ h' => exact absurd rfl (h' _)
      | @replied message reply' _ _ fit s =>
        obtain rfl : reply = reply' := by simpa using s
        exact .inr ⟨message, reply, rfl, own message List.mem_cons_self, rfl, fit, rfl⟩
    | exited =>
      have watcher := before.errand_of_alone.1 rfl
      cases watcher
    | stopped =>
      obtain ⟨interval, h⟩ := before.errand_of_alone.2 _ _ rfl
      cases h
  | take before =>
    rcases before.stage_of_message? rfl with h | h
    · cases h
    · exact absurd (Stage.finished.inj h) unaborted
  | late => exact absurd rfl unaborted
  | abort => exact absurd rfl unaborted

end Life

end MinerGateway
