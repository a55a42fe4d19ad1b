import MinerGateway.Proofs.Aspects
import MinerGateway.Proofs.NoneStranded

/-!
What an operation does at once.

A task that is pushed is put at the end of the tasks, unless the sealer refuses it (`perform_push`),
and whatever a miner asks for makes a call that has not begun (`perform_miner`). Neither looks at
anything else, so what is told at once can be read off the engine's state of running (`results`).
-/

namespace MinerGateway

namespace Action

def task? : Action → Option Task
  | .push task => some task
  | _ => none

def asks (kind : Kind) (action : Action) : Bool :=
  match action.miner? with
  | some (asked, _) => asked.kind = kind
  | none => false

def call? (action : Action) : Option Call :=
  action.miner?.map fun (asked, form) => { errand := .miner asked form }

def isPush (action : Action) : Bool := action.task?.isSome

/-- Whether an action pushes a task or asks for something on behalf of a miner. -/
def isOperation (action : Action) : Bool := action.isPush || action.miner?.isSome

theorem eq_push {action : Action} {task : Task} (h : action.task? = some task) :
    action = .push task := by
  cases action with
  | push => exact congrArg Action.push (Option.some.inj h)
  | _ => cases h

end Action

namespace World

/-- What the actions of one sort come to at once, one after another. -/
def results (sort : Action → Bool) (w : World) : List (Bool × Action) → List (Except Refusal Effect)
  | [] => []
  | (hold, action) :: rest =>
    let (report, w) := w.step hold action
    if sort action then report.result :: w.results sort rest else w.results sort rest

def refuses (w : World) (s : Sealer) : Bool := w.isSignalled || s.loop != .running

variable {w : World} {s : Sealer}

theorem perform_push (attached : w.attached = true) (engine : w.engine = .sealer s) (task : Task) :
    w.perform (.push task)
      = if w.refuses s then (.error (.engine .stopped), w)
        else (.ok .nothing,
          { w with engine := .sealer { s with tasks := s.tasks ++ [task] } }) := by
  have summary : w.sealerSummary?.isSome = true := by
    simp [sealerSummary?, attached, engine, Engine.isRunning?]
  by_cases refused : w.refuses s = true
  · have pushed : w.pushTask task = .error .stopped := by
      simp only [pushTask, engine]
      exact if_pos refused
    simp only [perform, summary, if_true, pushed, refused]
  · have pushed : w.pushTask task
        = .ok { w with engine := .sealer { s with tasks := s.tasks ++ [task] } } := by
      simp only [pushTask, engine]
      exact if_neg refused
    simp only [perform, summary, if_true, pushed, refused, Bool.false_eq_true, if_false]

theorem perform_miner (attached : w.attached = true) {action : Action}
    {request : Request} {form : Form} (miner : action.miner? = some (request, form)) :
    w.perform action
      = (.ok (.call w.calls.length),
        { w with calls := w.calls ++ [{ errand := .miner request form }] }) := by
  cases action with
  | request r =>
    obtain ⟨rfl, rfl⟩ := Prod.mk.inj (Option.some.inj miner)
    simp [perform, call, attached, makeCall]
  | rpc c =>
    simp only [Action.miner?] at miner
    split at miner
    · next same =>
      obtain ⟨rfl, rfl⟩ := Prod.mk.inj (Option.some.inj miner)
      simp [perform, call, attached, makeCall, same]
    · cases miner
  | _ => cases miner

theorem perform_detached (detached : w.attached = false) {action : Action}
    (operation : action.isOperation = true) : w.perform action = (.error .gone, w) := by
  have none : w.sealerSummary? = none := by simp [sealerSummary?, detached]
  cases action with
  | request | rpc => simp [perform, call, detached]
  | push => simp [perform, none]
  | _ => cases operation

end World

end MinerGateway
