import MinerGateway.Proofs.Channels
import MinerGateway.Proofs.Cutoff
import MinerGateway.Proofs.InTurn

/-!
Miners' calls stand in line.

`asked log` is what the miners' calls are made to hand over, in the order in which they were made. A
call is in line until its letter goes into the channel, or its caller goes away. `Lined` says, kind
by kind, that the letters that went in, followed by those in line, are those that were asked for,
less those that were withdrawn: nobody overtakes and nobody is forgotten. Steps in turn keep it as
long as the inbox is open (`lined_step`, `lined_run`).

The lines of the three kinds are independent, and within one kind the order is that of the calls. A
caller that goes away before its letter went in leaves the line (`Lined.withdraw`); one that goes
away later leaves it as it is (`Lined.abandon`), for its letter has gone ahead. When the inbox
closes, those in line are sent away, and what is left is that the letters which went in come first
(`entrants_prefix`).
-/

namespace MinerGateway

/-- The letter that a miner's call is made to hand over. -/
def Event.asks : Event → List Letter
  | .made call (.miner request _) => (request.message?.map (⟨call, ·⟩)).toList
  | _ => []

/-- The letter of a call that gets room. -/
def Event.entrants : Event → List Letter
  | .entered letter => [letter]
  | _ => []

def Event.aborts (i : Nat) : Event → Bool
  | .aborted call => call == i
  | _ => false

/-- The letters that miners' calls were made to hand over, in the order of the calls. -/
def asked (log : List Event) : List Letter := log.flatMap Event.asks

def entrants (log : List Event) : List Letter := log.flatMap Event.entrants

/-- The caller went away before its letter went into a channel. -/
def withdrawn (log : List Event) (i : Nat) : Bool :=
  log.any (Event.aborts i) && (entries (history i log)).isEmpty

/-- A call at this stage has not handed over its letter. -/
def Stage.inLine : Stage → Bool
  | .made | .waiting _ => true
  | _ => false

theorem asked_append (log more : List Event) : asked (log ++ more) = asked log ++ asked more :=
  List.flatMap_append ..

theorem asked_singleton (e : Event) : asked [e] = e.asks := List.append_nil _

theorem asked_concat {e : Event} {log : List Event} (h : e.asks = []) :
    asked (log ++ [e]) = asked log := by
  rw [asked_append, asked_singleton, h, List.append_nil]

theorem entrants_append (log more : List Event) :
    entrants (log ++ more) = entrants log ++ entrants more :=
  List.flatMap_append ..

theorem entrants_singleton (e : Event) : entrants [e] = e.entrants := List.append_nil _

theorem entrants_concat {e : Event} {log : List Event} (h : e.entrants = []) :
    entrants (log ++ [e]) = entrants log := by
  rw [entrants_append, entrants_singleton, h, List.append_nil]

theorem withdrawn_append (log : List Event) (e : Event) (i : Nat) :
    withdrawn (log ++ [e]) i = ((log.any (Event.aborts i) || e.aborts i) &&
      ((entries (history i log)).isEmpty && (entries (e.happenings i)).isEmpty)) := by
  rw [withdrawn, history_append, history_singleton, entries_append, List.any_append]
  cases entries (history i log) <;> simp

/-- An event that neither sends the caller away nor brings in its letter withdraws nothing. -/
theorem withdrawn_of_silent {e : Event} {i : Nat} (log : List Event) (stays : e.aborts i = false)
    (silent : entries (e.happenings i) = []) : withdrawn (log ++ [e]) i = withdrawn log i := by
  rw [withdrawn_append, stays, silent, Bool.or_false]
  exact congrArg _ (Bool.and_true _)

theorem mem_asked {letter : Letter} {log : List Event} :
    letter ∈ asked log ↔ ∃ request form, .made letter.sender (.miner request form) ∈ log ∧
      request.message? = some letter.message := by
  rw [asked, List.mem_flatMap]
  constructor
  · rintro ⟨e, he, asks⟩
    unfold Event.asks at asks
    split at asks
    · next call request form =>
      obtain ⟨message, hm, rfl⟩ := Option.map_eq_some_iff.mp (Option.mem_toList.mp asks)
      exact ⟨request, form, he, hm⟩
    · cases asks
  · rintro ⟨request, form, he, hm⟩
    exact ⟨_, he, by simp [Event.asks, hm]⟩

theorem any_aborts {i : Nat} {log : List Event} :
    log.any (Event.aborts i) = true ↔ .aborted i ∈ log := by
  rw [List.any_eq_true]
  constructor
  · rintro ⟨e, he, gone⟩
    cases e with
    | aborted call =>
      obtain rfl : call = i := by simpa [Event.aborts] using gone
      exact he
    | _ => cases gone
  · intro he
    exact ⟨_, he, by simp [Event.aborts]⟩

theorem Event.mem_arrivals {e : Event} {i : Nat} {message : Message} :
    ⟨i, message⟩ ∈ e.arrivals ↔ message ∈ entries (e.happenings i) := by
  have nothing : ∀ past, entries past = [] →
      (⟨i, message⟩ ∈ ([] : List Letter) ↔ message ∈ entries past) := by
    intro past silent
    simp [silent]
  cases e with
  | entered letter | posted letter =>
    obtain ⟨sender, other⟩ := letter
    by_cases own : sender = i
    · simp [arrivals, happenings, entries, own]
    · simp [arrivals, happenings, entries, own, Ne.symm own]
  | made | taken | served | resolved | finished | aborted =>
    apply nothing
    simp only [happenings]
    split <;> rfl
  | ended | dropped =>
    apply nothing
    simp [happenings, entries]
  | _ => exact nothing _ rfl

theorem mem_arrivals {i : Nat} {message : Message} {log : List Event} :
    ⟨i, message⟩ ∈ arrivals log ↔ message ∈ entries (history i log) := by
  rw [arrivals, entries, history, List.filterMap_flatMap, List.mem_flatMap, List.mem_flatMap]
  exact exists_congr fun e => and_congr_right fun _ => Event.mem_arrivals

theorem Event.entries_happenings {e : Event} (unarrived : e.arrivals = []) (i : Nat) :
    entries (e.happenings i) = [] := by
  apply List.eq_nil_iff_forall_not_mem.mpr
  intro message sent
  have there := mem_arrivals.mpr sent
  rw [unarrived] at there
  cases there

theorem mem_arrivals_of_entrant {letter : Letter} {log : List Event} (h : letter ∈ entrants log) :
    letter ∈ arrivals log := by
  obtain ⟨e, he, there⟩ := List.mem_flatMap.mp h
  refine List.mem_flatMap.mpr ⟨e, he, ?_⟩
  cases e with
  | entered => exact there
  | _ => cases there

/-- Events that make no call, bring no letter into a channel and send nobody away. -/
def Event.Aside : Event → Prop
  | .made .. | .entered _ | .posted _ | .aborted _ => False
  | _ => True

namespace Event.Aside

variable {e : Event}

theorem asks (h : e.Aside) : e.asks = [] := by
  cases e with
  | made => cases h
  | _ => rfl

theorem entrants (h : e.Aside) : e.entrants = [] := by
  cases e with
  | entered => cases h
  | _ => rfl

theorem withdrawn (h : e.Aside) (log : List Event) (i : Nat) :
    withdrawn (log ++ [e]) i = withdrawn log i := by
  have stays : e.aborts i = false := by
    cases e with
    | aborted => cases h
    | _ => rfl
  have unarrived : e.arrivals = [] := by
    cases e with
    | entered | posted => cases h
    | _ => rfl
  exact withdrawn_of_silent log stays (entries_happenings unarrived i)

end Event.Aside

theorem mem_history_made {i : Nat} {log : List Event} {request : Request} {form : Form} :
    .made (.miner request form) ∈ history i log ↔ .made i (.miner request form) ∈ log := by
  constructor
  · intro h
    obtain ⟨e, he, there⟩ := List.mem_flatMap.mp h
    cases e with
    | made call errand =>
      simp only [Event.happenings] at there
      split at there
      · next same =>
        obtain rfl : .miner request form = errand := by simpa using there
        exact same ▸ he
      · cases there
    | posted | entered | taken | served | resolved | finished | aborted =>
      simp only [Event.happenings] at there
      split at there <;> simp at there
    | ended | dropped => simp [Event.happenings] at there
    | _ => cases there
  · intro h
    exact List.mem_flatMap.mpr ⟨_, h, by simp [Event.happenings]⟩

/-- In a sorted line, the first of those that are left comes before all others. -/
theorem filter_eq_cons {letters : List Letter} {p q : Letter → Bool} {first : Letter}
    (sorted : letters.Pairwise (·.sender < ·.sender))
    (mem : first ∈ letters) (here : p first = true)
    (least : ∀ letter ∈ letters, p letter = true → first.sender ≤ letter.sender)
    (rest : ∀ letter ∈ letters, q letter = (p letter && decide (letter.sender ≠ first.sender))) :
    letters.filter p = first :: letters.filter q := by
  induction letters with
  | nil => cases mem
  | cons head tail ih =>
    obtain ⟨before, sorted⟩ := List.pairwise_cons.mp sorted
    have restHead := rest head List.mem_cons_self
    have restTail : ∀ letter ∈ tail, _ := fun letter h => rest letter (List.mem_cons_of_mem _ h)
    rcases List.mem_cons.mp mem with rfl | later
    · -- Nobody after it has its number.
      have same : tail.filter q = tail.filter p := by
        apply List.filter_congr
        intro letter there
        have less := before letter there
        rw [restTail letter there, decide_eq_true (Nat.ne_of_gt less), Bool.and_true]
      rw [List.filter_cons_of_pos here, List.filter_cons_of_neg (by simp [restHead]), same]
    · have less := before first later
      have out : p head = false := by
        apply Bool.eq_false_iff.mpr
        intro pos
        have := least head List.mem_cons_self pos
        omega
      rw [List.filter_cons_of_neg (by simp [out]),
        List.filter_cons_of_neg (by simp [restHead, out])]
      exact ih sorted later (fun letter h => least letter (List.mem_cons_of_mem _ h)) restTail

namespace World

variable {w w' : World} {e : Event} {log : List Event} {i : Nat}

/-- The call has not handed over its letter. -/
def inLine (w : World) (i : Nat) : Bool := (w.view i).any (·.2.inLine)

/-- The letters of the calls that have not handed them over, in the order of the calls. -/
def line (w : World) (log : List Event) : List Letter := (asked log).filter (w.inLine ·.sender)

/-- There is an inbox, and the exit signal was not given. -/
def Open (w : World) : Prop :=
  ∃ intake, w.intake = some intake ∧ intake.attended = true ∧ intake.signalled = false

/-! ## Who asks -/

theorem Tracked.view_of_asked (tracked : w.Tracked log) {letter : Letter} (h : letter ∈ asked log) :
    ∃ request form stage, w.view letter.sender = some (.miner request form, stage) ∧
      request.message? = some letter.message := by
  obtain ⟨request, form, made, message⟩ := mem_asked.mp h
  have happened := mem_history_made.mpr made
  obtain ⟨place, -, follows⟩ := tracked.calls letter.sender
  cases hv : w.view letter.sender with
  | none =>
    rw [hv] at follows
    rw [follows.1] at happened
    cases happened
  | some v =>
    obtain ⟨errand, stage⟩ := v
    rw [hv] at follows
    have life : Life errand (history letter.sender log) stage place := follows
    obtain rfl := life.eq_of_made_mem happened
    exact ⟨request, form, stage, rfl, message⟩

theorem Tracked.asked_of_view (tracked : w.Tracked log) {request : Request} {form : Form}
    {stage : Stage} {message : Message} (hv : w.view i = some (.miner request form, stage))
    (hm : request.message? = some message) : ⟨i, message⟩ ∈ asked log := by
  obtain ⟨place, -, life⟩ := tracked.life hv
  exact mem_asked.mpr ⟨request, form, mem_history_made.mp (List.mem_of_head? life.head?_eq), hm⟩

theorem Tracked.sender_lt (tracked : w.Tracked log) {letter : Letter} (h : letter ∈ asked log) :
    letter.sender < w.calls.length := by
  obtain ⟨request, form, stage, hv, -⟩ := tracked.view_of_asked h
  obtain ⟨call, found, -⟩ := exists_call hv
  exact (List.getElem?_eq_some_iff.mp found).1

theorem Tracked.any_aborts_eq_false (tracked : w.Tracked log)
    (unfinished : ∀ errand answer, w.view i ≠ some (errand, .finished answer)) :
    log.any (Event.aborts i) = false := by
  apply Bool.eq_false_iff.mpr
  intro gone
  exact tracked.not_mem_aborted unfinished (any_aborts.mp gone)

theorem Tracked.asked_inj (tracked : w.Tracked log) {letter other : Letter} (h : letter ∈ asked log)
    (h' : other ∈ asked log) (same : letter.sender = other.sender) : letter = other := by
  obtain ⟨request, form, stage, hv, hm⟩ := tracked.view_of_asked h
  obtain ⟨request', form', stage', hv', hm'⟩ := tracked.view_of_asked h'
  rw [same, hv'] at hv
  obtain ⟨⟨rfl, -⟩, -⟩ : (request' = request ∧ form' = form) ∧ stage' = stage := by simpa using hv
  obtain ⟨sender, message⟩ := letter
  obtain ⟨sender', message'⟩ := other
  obtain rfl : sender = sender' := same
  obtain rfl : message = message' := Option.some.inj (hm.symm.trans hm')
  rfl

theorem asks_of_made {errand : Errand} :
    ∀ letter ∈ (Event.made i errand).asks, letter.sender = i := by
  intro letter there
  cases errand with
  | miner request form =>
    obtain ⟨message, -, rfl⟩ := Option.map_eq_some_iff.mp (Option.mem_toList.mp there)
    rfl
  | _ => cases there

theorem asks_step (step : Step w e w') :
    ∀ letter ∈ e.asks, letter.sender = w.calls.length := by
  intro letter there
  cases step with
  | move step =>
    cases step with
    | @advance _ _ stage => cases stage <;> cases there
    | _ => cases there
  | act step =>
    cases step with
    | make => exact asks_of_made letter there
    | _ => cases there

theorem sorted_asks (e : Event) : e.asks.Pairwise (·.sender < ·.sender) := by
  unfold Event.asks
  split
  · cases Request.message? _ <;> simp
  · exact .nil

theorem sorted_asked {start : World} (run : start.Run log w) (tracked : start.Tracked []) :
    (asked log).Pairwise (·.sender < ·.sender) := by
  induction run with
  | refl => exact .nil
  | next before step ih =>
    rw [asked_append, asked_singleton, List.pairwise_append]
    refine ⟨ih, sorted_asks _, ?_⟩
    intro letter old other new
    rw [asks_step step other new]
    exact (before.tracked tracked).sender_lt old

/-! ## The line -/

theorem inLine_eq {errand : Errand} {stage : Stage} (h : w.view i = some (errand, stage)) :
    w.inLine i = stage.inLine := by
  rw [inLine, h, Option.any_some]

theorem inLine_iff :
    w.inLine i = true ↔ ∃ errand stage, w.view i = some (errand, stage) ∧ stage.inLine = true := by
  cases hv : w.view i with
  | none => simp [inLine, hv]
  | some v => simp [inLine, hv, Prod.ext_iff]

/-- A call in line has not begun, or it waits for room. -/
theorem Tracked.fresh_or_waits (tracked : w.Tracked log) {letter : Letter} (h : letter ∈ asked log)
    (here : w.inLine letter.sender = true) :
    w.Fresh letter.sender ∨ w.Waits letter.sender letter.message := by
  obtain ⟨request, form, stage, hv, hm⟩ := tracked.view_of_asked h
  rw [inLine_eq hv] at here
  cases stage with
  | made => exact .inl ⟨request, form, hv⟩
  | waiting message =>
    obtain ⟨place, -, life⟩ := tracked.life hv
    have own : request.message? = some message := life.writes.1 message rfl
    obtain rfl : letter.message = message := Option.some.inj (hm.symm.trans own)
    exact .inr ⟨_, hv⟩
  | _ => cases here

/-- Of each kind, the letters that went in and those in line are those asked for and not withdrawn;
and whoever waits for room was made before whoever has not begun. -/
structure Lined (w : World) (log : List Event) : Prop where
  begun : ∀ i message j, w.Waits i message → w.Fresh j → i < j
  split : ∀ kind, ofKind kind (entrants log) ++ ofKind kind (w.line log)
    = (ofKind kind (asked log)).filter fun letter => !withdrawn log letter.sender

theorem line_congr (line : ∀ letter ∈ asked log, w'.inLine letter.sender = w.inLine letter.sender) :
    w'.line log = w.line log :=
  List.filter_congr line

theorem Lined.keep (h : w.Lined log) (asks : e.asks = []) (entrants : e.entrants = [])
    (begun : ∀ i message j, w'.Waits i message → w'.Fresh j → i < j)
    (line : ∀ letter ∈ asked log, w'.inLine letter.sender = w.inLine letter.sender)
    (gone : ∀ letter ∈ asked log,
      withdrawn (log ++ [e]) letter.sender = withdrawn log letter.sender) :
    w'.Lined (log ++ [e]) := by
  refine ⟨begun, ?_⟩
  intro kind
  have line' : w'.line (log ++ [e]) = w.line log := by
    rw [World.line, asked_concat asks]
    exact line_congr line
  rw [asked_concat asks, entrants_concat entrants, line', h.split kind]
  apply List.filter_congr
  intro letter there
  rw [gone letter (mem_ofKind.mp there).1]

/-- What is early of a call stays as it is: who has not begun, and who waits for room. -/
def KeepsLine (w w' : World) : Prop :=
  ∀ i errand stage, stage.inLine = true →
    (w'.view i = some (errand, stage) ↔ w.view i = some (errand, stage))

theorem KeepsLine.inLine (h : KeepsLine w w') (i : Nat) : w'.inLine i = w.inLine i := by
  rw [Bool.eq_iff_iff, inLine_iff, inLine_iff]
  constructor
  · rintro ⟨errand, stage, hv, early⟩
    exact ⟨errand, stage, (h i errand stage early).mp hv, early⟩
  · rintro ⟨errand, stage, hv, early⟩
    exact ⟨errand, stage, (h i errand stage early).mpr hv, early⟩

/-- Nobody comes to a place in line where it was not before. -/
def Shrinks (w w' : World) : Prop :=
  ∀ i errand stage, stage.inLine = true → w'.view i = some (errand, stage) →
    w.view i = some (errand, stage)

theorem KeepsLine.shrinks (h : KeepsLine w w') : Shrinks w w' :=
  fun i errand stage early => (h i errand stage early).mp

theorem Lined.begun_of_shrinks (h : w.Lined log) (shrinks : Shrinks w w') :
    ∀ i message j, w'.Waits i message → w'.Fresh j → i < j := by
  rintro i message j ⟨errand, waits⟩ ⟨request, form, fresh⟩
  exact h.begun i message j ⟨errand, shrinks i _ _ rfl waits⟩
    ⟨request, form, shrinks j _ _ rfl fresh⟩

theorem Lined.aside (h : w.Lined log) (aside : e.Aside) (keeps : KeepsLine w w') :
    w'.Lined (log ++ [e]) := by
  exact h.keep aside.asks aside.entrants (h.begun_of_shrinks keeps.shrinks)
    (fun letter _ => keeps.inLine _) fun letter _ => aside.withdrawn log _

theorem keepsLine_of_view (h : ∀ i, w'.view i = w.view i) : KeepsLine w w' := by
  intro i errand stage _
  rw [h]

theorem map_receive_iff {v : Option (Errand × Stage)} {reply : Reply}
    {errand : Errand} {stage : Stage} (early : stage.inLine = true) :
    v.map (fun v => (v.1, v.2.receive reply)) = some (errand, stage) ↔
    v = some (errand, stage) := by
  constructor
  · intro h
    apply view_of_receive h
    rintro reply rfl
    cases early
  · rintro rfl
    cases stage with
    | sent => cases early
    | _ => rfl

theorem keepsLine_deliver (i : Nat) (reply : Reply) : KeepsLine w (w.deliver i reply) := by
  intro j errand stage early
  rw [view_deliver]
  split
  · exact map_receive_iff early
  · exact Iff.rfl

theorem keepsLine_lose (letters : List Letter) : KeepsLine w (w.lose letters) := by
  intro j errand stage early
  rw [view_lose]
  split
  · exact map_receive_iff early
  · exact Iff.rfl

theorem keepsLine_setStage {call : Call} {stage : Stage} (found : w.calls[i]? = some call)
    (before : call.stage.inLine = false) (after : stage.inLine = false) :
    KeepsLine w (w.setStage i stage) := by
  intro j errand stage' early
  rw [view_setStage]
  split
  · next same =>
    subst same
    rw [view_eq_some found, Option.map_some]
    constructor
    · intro h
      obtain ⟨-, rfl⟩ := Prod.mk.inj (Option.some.inj h)
      rw [after] at early
      cases early
    · intro h
      obtain ⟨-, rfl⟩ := Prod.mk.inj (Option.some.inj h)
      rw [before] at early
      cases early
  · exact Iff.rfl

theorem keepsLine_fire (owner : Owner) : KeepsLine w (w.fire owner) := by
  intro j errand stage early
  rcases view_fire w owner j with same | ⟨errand', chain, due, before, after⟩
  · rw [same]
  · -- A source of synthetic work is not in line.
    have late : ∀ due, some (errand', Stage.producing chain due) ≠ some (errand, stage) := by
      intro due h
      obtain ⟨-, rfl⟩ := Prod.mk.inj (Option.some.inj h)
      cases early
    rw [before, after]
    exact ⟨fun h => absurd h (late _), fun h => absurd h (late _)⟩

/-! ## Steps that move the line -/

theorem aside_ofStage (i : Nat) (errand : Errand) (stage : Stage) :
    (Event.ofStage i errand stage).Aside := by
  cases stage <;> trivial

theorem shrinks_setStage {stage : Stage} (late : stage.inLine = false) (i : Nat) :
    Shrinks w (w.setStage i stage) := by
  intro j errand early here hv
  rw [view_setStage] at hv
  split at hv
  · obtain ⟨v, -, same⟩ := Option.map_eq_some_iff.mp hv
    obtain rfl := (Prod.mk.inj same).2
    rw [late] at here
    cases here
  · exact hv

/-- While the inbox is open, a call that asks for something gives up its place in line only to wait.
-/
theorem inLine_of_advances {call : Call} {stage : Stage} (opened : w.Open) (tracked : w.Tracked log)
    (found : w.calls[i]? = some call) (step : Advances w call.errand call.stage stage)
    {letter : Letter} (asks : letter ∈ asked log) (own : letter.sender = i) :
    stage.inLine = call.stage.inLine := by
  obtain ⟨intake, hi, attended, quiet⟩ := opened
  obtain ⟨request, form, stage', hv, hm⟩ := tracked.view_of_asked asks
  rw [own, view_eq_some found] at hv
  obtain ⟨errand, before, reported⟩ := call
  obtain ⟨rfl, -⟩ : errand = .miner request form ∧ before = stage' := by simpa using hv
  cases step with
  | unsupported none =>
    rw [hi] at none
    cases none
  | malformed _ none =>
    rw [none] at hm
    cases hm
  | refused closed =>
    have := closed intake hi
    rw [quiet, attended] at this
    cases this
  | wait | learn | exited | stopped => rfl

theorem Lined.advance (h : w.Lined log) (opened : w.Open) (tracked : w.Tracked log) {call : Call}
    {stage : Stage} (found : w.calls[i]? = some call)
    (step : Advances w call.errand call.stage stage) (turn : InTurn w (w.setStage i stage)) :
    (w.setStage i stage).Lined (log ++ [.ofStage i call.errand stage]) := by
  have aside := aside_ofStage i call.errand stage
  refine h.keep aside.asks aside.entrants ?_ ?_ fun letter _ => aside.withdrawn log _
  · cases here : stage.inLine with
    | false => exact h.begun_of_shrinks (shrinks_setStage here i)
    | true =>
      -- The call begins, and it is the first to do so.
      rintro j message k ⟨errand, waits⟩ ⟨request, form, fresh⟩
      have begun : i ≠ k := by
        rintro rfl
        rw [view_setStage, if_pos rfl, view_eq_some found] at fresh
        exact Advances.ne_made step (Prod.mk.inj (Option.some.inj fresh)).2
      have fresh' : w.Fresh k := ⟨request, form, by rwa [view_setStage, if_neg begun] at fresh⟩
      by_cases first : i = j
      · subst first
        have made : w.Fresh i := by
          rw [view_setStage, if_pos rfl, view_eq_some found] at waits
          obtain ⟨-, rfl⟩ := Prod.mk.inj (Option.some.inj waits)
          obtain ⟨errand', before, reported⟩ := call
          cases step with
          | wait => exact ⟨_, _, view_eq_some found⟩
        have le := turn.begins i message made ⟨errand, waits⟩ k fresh'
        omega
      · rw [view_setStage, if_neg first] at waits
        exact h.begun j message k ⟨errand, waits⟩ fresh'
  · intro letter asks
    by_cases own : letter.sender = i
    · rw [own, inLine_eq (view_eq_some found),
        inLine_of_advances opened tracked found step asks own |>.symm]
      exact inLine_eq (by rw [view_setStage, if_pos rfl, view_eq_some found]; rfl)
    · rw [inLine, inLine, view_setStage, if_neg (Ne.symm own)]

theorem inLine_setStage {call : Call} {stage : Stage} (found : w.calls[i]? = some call)
    (late : stage.inLine = false) (j : Nat) :
    (w.setStage i stage).inLine j = (w.inLine j && decide (j ≠ i)) := by
  rw [inLine, view_setStage]
  by_cases own : i = j
  · subst own
    simp [view_eq_some found, late]
  · simp [own, Ne.symm own, inLine]

/-- The one who gets room in turn is the first in line among those of its kind. -/
theorem Lined.first_in_line (h : w.Lined log) (tracked : w.Tracked log)
    (sorted : (asked log).Pairwise (·.sender < ·.sender)) {message : Message}
    (asks : ⟨i, message⟩ ∈ asked log) (waits : w.Waits i message) (sent : w'.Sent i)
    (turn : InTurn w w') (rest : ∀ j, w'.inLine j = (w.inLine j && decide (j ≠ i))) (kind : Kind) :
    (ofKind kind (asked log)).filter (w.inLine ·.sender)
      = ofKind kind [⟨i, message⟩] ++ (ofKind kind (asked log)).filter (w'.inLine ·.sender) := by
  by_cases here : message.kind = kind
  · have alone : ofKind kind [⟨i, message⟩] = [⟨i, message⟩] := by simp [ofKind, here]
    rw [alone]
    apply filter_eq_cons (sorted.filter _) (mem_ofKind.mpr ⟨asks, here⟩)
    · obtain ⟨errand, hv⟩ := waits
      exact (inLine_eq hv).trans rfl
    · intro letter there early
      obtain ⟨asks', kind'⟩ := mem_ofKind.mp there
      rcases tracked.fresh_or_waits asks' early with fresh | waits'
      · exact Nat.le_of_lt (h.begun i message _ waits fresh)
      · exact turn.enters i message waits sent _ _ waits' (kind'.trans here.symm)
    · intro letter _
      exact rest letter.sender
  · -- Nobody of another kind is it.
    have none : ofKind kind [⟨i, message⟩] = [] := by simp [ofKind, here]
    rw [none, List.nil_append]
    apply List.filter_congr
    intro letter there
    obtain ⟨asks', kind'⟩ := mem_ofKind.mp there
    have other : letter.sender ≠ i := by
      intro own
      rw [tracked.asked_inj asks' asks own] at kind'
      exact here kind'
    rw [rest, decide_eq_true other, Bool.and_true]

theorem Lined.enter (h : w.Lined log) (tracked : w.Tracked log)
    (sorted : (asked log).Pairwise (·.sender < ·.sender)) {call : Call} {message : Message}
    (found : w.calls[i]? = some call) (stage : call.stage = .waiting message)
    (view : ∀ j, w'.view j = (w.setStage i .sent).view j) (turn : InTurn w w') :
    w'.Lined (log ++ [.entered ⟨i, message⟩]) := by
  have waits : w.view i = some (call.errand, .waiting message) := stage ▸ view_eq_some found
  have sent : w'.Sent i := by
    refine ⟨call.errand, ?_⟩
    rw [view, view_setStage, if_pos rfl, waits]
    rfl
  have rest : ∀ j, w'.inLine j = (w.inLine j && decide (j ≠ i)) := by
    intro j
    rw [inLine, view]
    exact inLine_setStage found rfl j
  obtain ⟨place, -, life⟩ := tracked.life waits
  obtain ⟨request, form, miner, own⟩ := life.miner_of_waiting
  have asks : ⟨i, message⟩ ∈ asked log := tracked.asked_of_view (miner ▸ waits) own
  have gone : ∀ letter : Letter,
      withdrawn (log ++ [.entered ⟨i, message⟩]) letter.sender = withdrawn log letter.sender := by
    intro letter
    by_cases own : i = letter.sender
    · have stays : log.any (Event.aborts i) = false :=
        tracked.any_aborts_eq_false (by simp [waits])
      rw [withdrawn_append, withdrawn, ← own, stays]
      rfl
    · exact withdrawn_of_silent log rfl (by simp [Event.happenings, own, entries])
  refine ⟨h.begun_of_shrinks ?_, ?_⟩
  · intro j errand stage early hv
    rw [view] at hv
    exact shrinks_setStage rfl i j errand stage early hv
  intro kind
  have split := h.split kind
  rw [line, ofKind_filter,
    h.first_in_line tracked sorted asks ⟨_, waits⟩ sent turn rest kind] at split
  rw [line, asked_concat rfl, entrants_append, entrants_singleton, ofKind_append, ofKind_filter,
    List.append_assoc]
  simp only [gone]
  exact split

theorem Lined.withdraw (h : w.Lined log) (tracked : w.Tracked log) {call : Call}
    (found : w.calls[i]? = some call) (early : call.stage.inLine = true) :
    (w.setStage i (.finished .aborted)).Lined (log ++ [.aborted i]) := by
  have unsent : entries (history i log) = [] := by
    apply tracked.unsent
    intro errand stage hv
    rw [view_eq_some found] at hv
    obtain ⟨-, rfl⟩ := Prod.mk.inj (Option.some.inj hv)
    generalize call.stage = stage at early ⊢
    cases stage with
    | made => exact .inl rfl
    | waiting message => exact .inr ⟨message, rfl⟩
    | _ => cases early
  have gone : ∀ j, withdrawn (log ++ [.aborted i]) j = (withdrawn log j || decide (j = i)) := by
    intro j
    by_cases own : i = j
    · subst own
      rw [withdrawn_append, unsent, Event.entries_happenings rfl]
      simp [Event.aborts]
    · have stays : (Event.aborted i).aborts j = false := by simpa [Event.aborts] using own
      rw [withdrawn_of_silent log stays (Event.entries_happenings rfl j),
        decide_eq_false (Ne.symm own), Bool.or_false]
  refine ⟨h.begun_of_shrinks (shrinks_setStage rfl i), ?_⟩
  intro kind
  -- Without the one who goes, both sides stay as they were.
  have left := congrArg (List.filter fun letter => decide (letter.sender ≠ i)) (h.split kind)
  have entered : (ofKind kind (entrants log)).filter (fun letter => decide (letter.sender ≠ i))
      = ofKind kind (entrants log) := by
    apply List.filter_eq_self.mpr
    intro letter there
    refine decide_eq_true ?_
    rintro rfl
    have sent := mem_arrivals.mp (mem_arrivals_of_entrant (mem_ofKind.mp there).1)
    rw [unsent] at sent
    cases sent
  rw [line, ofKind_filter, List.filter_append, entered,
    List.filter_filter, List.filter_filter] at left
  rw [line, asked_concat rfl, entrants_concat rfl, ofKind_filter]
  have late : (Stage.finished .aborted).inLine = false := rfl
  simp only [inLine_setStage found late, gone]
  convert left using 2
  · congr 1
    funext letter
    exact Bool.and_comm _ _
  · funext letter
    by_cases own : letter.sender = i <;> simp [own]

/-- A miner's call that is under way and not in line has handed over its letter. -/
theorem sent_of_late {request : Request} {form : Form} {past : List Happening} {stage : Stage}
    {place : Place} (life : Life (.miner request form) past stage place)
    (late : stage.inLine = false) (unfinished : ∀ answer, stage ≠ .finished answer) :
    entries past ≠ [] := by
  intro none
  rcases life.stage_of_unsent none with rfl | ⟨message, rfl⟩ | watches | ⟨chain, due, produces⟩ |
    ⟨answer, finished⟩
  · cases late
  · cases late
  · have other := life.errand_of_alone.1 watches
    cases other
  · obtain ⟨interval, other⟩ := life.errand_of_alone.2 _ _ produces
    cases other
  · exact unfinished answer finished

/-- A caller that goes away later withdraws nothing. -/
theorem Lined.abandon (h : w.Lined log) (tracked : w.Tracked log) {call : Call}
    (found : w.calls[i]? = some call) (unfinished : call.answer? = none)
    (late : call.stage.inLine = false) :
    (w.setStage i (.finished .aborted)).Lined (log ++ [.aborted i]) := by
  refine h.keep rfl rfl (h.begun_of_shrinks (shrinks_setStage rfl i)) ?_ ?_
  · intro letter _
    exact (keepsLine_setStage found late rfl).inLine letter.sender
  · intro letter asks
    by_cases own : i = letter.sender
    · obtain ⟨request, form, stage, hv, -⟩ := tracked.view_of_asked asks
      obtain ⟨place, -, life⟩ := tracked.life hv
      rw [← own, view_eq_some found] at hv
      obtain ⟨-, rfl⟩ := Prod.mk.inj (Option.some.inj hv)
      have sent := sent_of_late life late (by
        intro answer finished
        simp [Call.answer?, finished] at unfinished)
      rw [withdrawn_append, withdrawn, List.isEmpty_eq_false_iff.mpr sent]
      simp
    · have stays : (Event.aborted i).aborts letter.sender = false := by
        simpa [Event.aborts] using own
      exact withdrawn_of_silent log stays (Event.entries_happenings rfl _)

theorem Lined.make (h : w.Lined log) (tracked : w.Tracked log) (errand : Errand) :
    (w.makeCall errand).2.Lined (log ++ [.made w.calls.length errand]) := by
  have fresh : w.view w.calls.length = none := view_eq_none_of_le (Nat.le_refl _)
  refine ⟨?_, ?_⟩
  · rintro j message k ⟨errand', waits⟩ ⟨request, form, begun⟩
    rw [view_makeCall] at waits begun
    split at waits
    · obtain ⟨-, other⟩ := Prod.mk.inj (Option.some.inj waits)
      cases other
    split at begun
    · next new =>
      obtain ⟨call, found, -⟩ := exists_call waits
      rw [new]
      exact (List.getElem?_eq_some_iff.mp found).1
    · exact h.begun j message k ⟨errand', waits⟩ ⟨request, form, begun⟩
  intro kind
  have asks : ∀ letter ∈ (Event.made w.calls.length errand).asks, letter.sender = w.calls.length :=
    asks_of_made
  -- The new call stands last in line.
  have line' : (w.makeCall errand).2.line (log ++ [.made w.calls.length errand])
      = w.line log ++ (Event.made w.calls.length errand).asks := by
    rw [line, asked_append, asked_singleton, List.filter_append]
    congr 1
    · apply List.filter_congr
      intro letter old
      have less := tracked.sender_lt old
      rw [inLine, view_makeCall, if_neg (by omega), inLine]
    · apply List.filter_eq_self.mpr
      intro letter new
      rw [asks letter new, inLine, view_makeCall, if_pos rfl]
      rfl
  have left : ((ofKind kind (asked (log ++ [.made w.calls.length errand]))).filter fun letter =>
        !withdrawn (log ++ [.made w.calls.length errand]) letter.sender)
      = ((ofKind kind (asked log)).filter fun letter => !withdrawn log letter.sender)
        ++ ofKind kind (Event.made w.calls.length errand).asks := by
    rw [asked_append, asked_singleton, ofKind_append, List.filter_append]
    congr 1
    · apply List.filter_congr
      intro letter old
      have less := tracked.sender_lt (mem_ofKind.mp old).1
      rw [withdrawn_of_silent log rfl (Event.entries_happenings rfl _)]
    · apply List.filter_eq_self.mpr
      intro letter new
      rw [asks letter (mem_ofKind.mp new).1, Bool.not_eq_true', withdrawn_append]
      have stays : log.any (Event.aborts w.calls.length) = false :=
        tracked.any_aborts_eq_false (by simp [fresh])
      rw [stays]
      rfl
  rw [entrants_concat rfl, line', left, ofKind_append, ← List.append_assoc, h.split kind]

theorem Lined.post (h : w.Lined log) (tracked : w.Tracked log)
    (message : Message) (intake : Intake) :
    ({ (w.makeCall .letter).2 with intake := some intake }.setStage w.calls.length .sent).Lined
      (log ++ [Event.posted ⟨w.calls.length, message⟩]) := by
  have view : ∀ j, j ≠ w.calls.length →
      ({ (w.makeCall .letter).2 with intake := some intake }.setStage w.calls.length .sent).view j
        = w.view j := by
    intro j old
    rw [view_setStage, if_neg (Ne.symm old)]
    exact (view_makeCall w .letter j).trans (if_neg old)
  refine h.keep rfl rfl (h.begun_of_shrinks ?_) ?_ ?_
  · intro j errand stage early hv
    by_cases new : j = w.calls.length
    · rw [view_setStage, if_pos new.symm] at hv
      obtain ⟨v, -, same⟩ := Option.map_eq_some_iff.mp hv
      obtain rfl := (Prod.mk.inj same).2
      cases early
    · rwa [view j new] at hv
  · intro letter asks
    have less := tracked.sender_lt asks
    rw [inLine, view _ (by omega), inLine]
  · intro letter asks
    have less := tracked.sender_lt asks
    apply withdrawn_of_silent log rfl
    simp only [Event.happenings]
    rw [if_neg (by omega)]
    rfl

/-! ## Runs -/

theorem lined_move (step : Move w e w') (turn : InTurn w w')
    (opened : w.Open) (tracked : w.Tracked log)
    (sorted : (asked log).Pairwise (·.sender < ·.sender)) (h : w.Lined log) :
    w'.Lined (log ++ [e]) := by
  cases step with
  | advance found step => exact h.advance opened tracked found step turn
  | enter found stage => exact h.enter tracked sorted found stage (fun _ => rfl) turn
  | @produce pushed i interval call chain found stage _ hpush =>
    obtain ⟨sealer, -, -, -, rfl⟩ := pushTask_eq_ok hpush
    refine h.aside trivial ?_
    exact keepsLine_setStage (w := w) found (by rw [stage]; rfl) rfl
  | quit => exact h.aside trivial (keepsLine_lose (w := { w with engine := _, intake := _ }) _)
  | serve =>
    exact h.aside trivial (keepsLine_deliver (w := { w with engine := _, intake := _ }) _ _)
  | handle | clean | release => exact h.aside trivial (keepsLine_of_view fun _ => rfl)

theorem lined_act (step : Act w e w') (tracked : w.Tracked log) (h : w.Lined log) :
    w'.Lined (log ++ [e]) := by
  cases step with
  | make => exact h.make tracked _
  | post => exact h.post tracked _ _
  | @abort i call found unfinished =>
    cases early : call.stage.inLine with
    | true => exact h.withdraw tracked found early
    | false => exact h.abandon tracked found unfinished early
  | push pushed => exact h.aside trivial (keepsLine_of_view (view_pushTask pushed))
  | resolve => exact h.aside trivial (keepsLine_deliver (w := { w with engine := _ }) _ _)
  | drop => exact h.aside trivial (keepsLine_lose (w := { w with intake := _ }) _)
  | ring => exact h.aside trivial (keepsLine_fire (w := { w with now := _, timers := _ }) _)
  | report => exact h.aside trivial (keepsLine_of_view (view_markReported w))
  | signal | receive | abandon | join | setHashrate | take | read | detach | pass =>
    exact h.aside trivial (keepsLine_of_view fun _ => rfl)

/-- **A step in turn keeps the line**, while the inbox is open. -/
theorem lined_step (step : Step w e w') (turn : InTurn w w')
    (opened : w.Open) (tracked : w.Tracked log)
    (sorted : (asked log).Pairwise (·.sender < ·.sender)) (h : w.Lined log) :
    w'.Lined (log ++ [e]) := by
  cases step with
  | move step => exact lined_move step turn opened tracked sorted h
  | act step => exact lined_act step tracked h

theorem open_of_step {script : Script} (step : Step w e w') (engine : w.engine = .scripted script)
    (connected : w.intake ≠ none) (opened : w'.Open) : w.Open := by
  obtain ⟨intake', hi', attended, quiet⟩ := opened
  obtain ⟨intake, hi⟩ := Option.ne_none_iff_exists'.mp connected
  obtain ⟨_, same, changes⟩ := changes_step step engine hi
  obtain rfl := Option.some.inj (hi'.symm.trans same)
  refine ⟨intake, hi, changes.attended attended, ?_⟩
  apply Bool.eq_false_iff.mpr
  intro signalled
  have later := signalled_run (.single step) ((isSignalled_eq hi).trans signalled)
  rw [isSignalled_eq hi', quiet] at later
  cases later

theorem lined_run {capacity : Nat} (run : (scripted capacity).RunBy InTurn log w)
    (opened : w.Open) :
    w.Lined log := by
  induction run with
  | refl =>
    refine ⟨?_, fun _ => rfl⟩
    rintro i message j ⟨errand, waits⟩
    cases waits
  | next before step turn ih =>
    have tracked := before.run.tracked (tracked_scripted capacity)
    obtain ⟨script, engine, -⟩ := kept_scripted before.run
    have opened' := open_of_step step engine tracked.connected opened
    exact lined_step step turn opened' tracked
      (sorted_asked before.run (tracked_scripted capacity)) (ih opened')

/-! ## After the inbox is closed -/

theorem mem_arrivals_step (step : Step w e w') {letter : Letter} (h : letter ∈ e.arrivals) :
    letter ∈ e.entrants ∨ letter.sender = w.calls.length := by
  cases step with
  | move step =>
    cases step with
    | @advance _ _ stage => cases stage <;> cases h
    | enter => exact .inl h
    | _ => cases h
  | act step =>
    cases step with
    | post => exact .inr (congrArg Letter.sender (List.mem_singleton.mp h))
    | _ => cases h

theorem unentered_of_closed (step : Step w e w') (closed : ¬w'.Open) : e.entrants = [] := by
  cases step with
  | move step =>
    cases step with
    | @advance _ _ stage => cases stage <;> rfl
    | @enter i call message intake found stage hi quiet attended =>
      refine absurd ⟨_, rfl, ?_, ?_⟩ closed
      · exact (Intake.attended_setQueue ..).trans attended
      · exact (Intake.signalled_setQueue ..).trans quiet
    | _ => rfl
  | act step => cases step <;> rfl

/-- The letters that went in come first among those that were asked for and not withdrawn. -/
def Leads (log : List Event) : Prop :=
  ∀ kind, ofKind kind (entrants log)
    <+: (ofKind kind (asked log)).filter fun letter => !withdrawn log letter.sender

theorem leads_step (step : Step w e w') (tracked : w.Tracked log) (unentered : e.entrants = [])
    (h : Leads log) : Leads (log ++ [e]) := by
  intro kind
  obtain ⟨rest, split⟩ := h kind
  -- What is withdrawn once is withdrawn for good, and what went in never is.
  have later : ∀ letter ∈ asked log, withdrawn log letter.sender = true →
      withdrawn (log ++ [e]) letter.sender = true := by
    intro letter old gone
    have silent : entries (e.happenings letter.sender) = [] := by
      apply List.eq_nil_iff_forall_not_mem.mpr
      intro message sent
      rcases mem_arrivals_step step (Event.mem_arrivals.mpr sent) with entrant | new
      · rw [unentered] at entrant
        cases entrant
      · exact Nat.ne_of_lt (tracked.sender_lt old) new
    obtain ⟨left, unsent⟩ := Bool.and_eq_true_iff.mp gone
    rw [withdrawn_append, left, unsent, silent]
    rfl
  have stays : ∀ letter ∈ ofKind kind (entrants log),
      (!withdrawn (log ++ [e]) letter.sender) = true := by
    intro letter there
    have sent := mem_arrivals.mp (mem_arrivals_of_entrant (mem_ofKind.mp there).1)
    have unsent : (entries (history letter.sender log)).isEmpty = false :=
      List.isEmpty_eq_false_iff.mpr (List.ne_nil_of_mem sent)
    rw [withdrawn_append, unsent, Bool.false_and, Bool.and_false]
    rfl
  have old : (ofKind kind (asked log)).filter (fun letter => !withdrawn (log ++ [e]) letter.sender)
      = ofKind kind (entrants log)
        ++ rest.filter fun letter => !withdrawn (log ++ [e]) letter.sender := by
    calc (ofKind kind (asked log)).filter (fun letter => !withdrawn (log ++ [e]) letter.sender)
        = ((ofKind kind (asked log)).filter fun letter => !withdrawn log letter.sender).filter
            fun letter => !withdrawn (log ++ [e]) letter.sender := by
          rw [List.filter_filter]
          apply List.filter_congr
          intro letter there
          cases gone : withdrawn log letter.sender with
          | false => simp
          | true => simp [later letter (mem_ofKind.mp there).1 gone]
      _ = _ := by
          rw [← split, List.filter_append, List.filter_eq_self.mpr stays]
  rw [entrants_concat unentered, asked_append, asked_singleton,
    ofKind_append, List.filter_append, old, List.append_assoc]
  exact List.prefix_append ..

/-- **What went in comes first among what was asked for and not withdrawn**, in the order of the
calls, whether the inbox is open or not. -/
theorem entrants_prefix {capacity : Nat} (run : (scripted capacity).RunBy InTurn log w) :
    Leads log := by
  induction run with
  | refl =>
    intro kind
    exact List.prefix_refl _
  | @next log w w' e before step turn ih =>
    by_cases opened : w'.Open
    · intro kind
      exact ⟨_, (lined_run (before.next step turn) opened).split kind⟩
    · have tracked := before.run.tracked (tracked_scripted capacity)
      exact leads_step step tracked (unentered_of_closed step opened) ih

end World

end MinerGateway
