import MinerGateway.Devnet.Chain

/-!
The tasks of a source of synthetic work.

The tasks are numbered one after another from the number at which the chain stands
(`number_of_tasks`), as long as 64 bits suffice, and the first text of each package is that of its
seal hash (`powHash_of_tasks`).
-/

namespace MinerGateway.Devnet.Chain

variable {digest : Digest} {count index : Nat} {chain : Chain} {task : Task}

theorem length_tasks (digest : Digest) (count : Nat) (chain : Chain) :
    (tasks digest count chain).length = count := by
  induction count generalizing chain with
  | zero => rfl
  | succ count ih => exact congrArg (· + 1) (ih _)

/-- The task at an index is the one that the chain makes after that many others. -/
theorem eq_skip_of_tasks (found : (tasks digest count chain)[index]? = some task) :
    task = (skip digest index chain).task digest := by
  induction count generalizing chain index with
  | zero => cases found
  | succ count ih =>
    cases index with
    | zero => exact (Option.some.inj found).symm
    | succ index =>
      rw [tasks, List.getElem?_cons_succ] at found
      have later : task = (skip digest index (chain.advance digest)).task digest := ih found
      exact later

theorem next_skip (small : chain.next.toNat + index < UInt64.size) :
    (skip digest index chain).next.toNat = chain.next.toNat + index := by
  induction index generalizing chain with
  | zero => rfl
  | succ index ih =>
    have fits : chain.next.toNat + 1 < UInt64.size := by omega
    have one : (chain.advance digest).next.toNat = chain.next.toNat + 1 :=
      (UInt64.toNat_add chain.next 1).trans (Nat.mod_eq_of_lt fits)
    have small' : (chain.advance digest).next.toNat + index < UInt64.size := by omega
    calc (skip digest (index + 1) chain).next.toNat
      _ = (chain.advance digest).next.toNat + index := ih small'
      _ = chain.next.toNat + (index + 1) := by omega

/-- **The tasks are numbered one after another.** -/
theorem number_of_tasks (small : chain.next.toNat + index < UInt64.size)
    (found : (tasks digest count chain)[index]? = some task) :
    task.number.toNat = chain.next.toNat + index := by
  rw [eq_skip_of_tasks found]
  exact next_skip small

/-- **The first text of a package is that of the seal hash.** -/
theorem powHash_of_tasks (found : (tasks digest count chain)[index]? = some task) :
    task.package.powHash = task.sealHash.text := by
  rw [eq_skip_of_tasks found]
  rfl

end MinerGateway.Devnet.Chain
