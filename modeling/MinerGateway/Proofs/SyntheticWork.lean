import MinerGateway.Proofs.DevnetChain
import MinerGateway.Proofs.HexRoundTrip
import MinerGateway.Proofs.InTurn
import MinerGateway.Proofs.Linearization
import MinerGateway.Proofs.QuantityCodec

/-!
What the packages of synthetic work say.

`sealHashAt` gives the seal hashes of a fresh source by their numbers, each the digest of the one
before and its own number, and `Decodes` says what the readers of hexadecimal find in a package.
Every task decodes (`Chain.decodes_task`), and after `n` tasks a source stands at the number after
`n` on top of the `n`-th seal hash (`Chain.skip_start`), as long as 64 bits suffice. In a gateway a
source comes on only by pushing its next task (`World.producing_of_step`), so where it stands is
told by how many it has pushed, and by nothing else (`World.produced_run`).

What is proved (`synthetic_work_decodes`), for every number below the largest word:
  1. the `n`-th task has the number `n` and the `n`-th seal hash;
  2. the texts of its package are read as that hash, the seed of its epoch, the boundary, a header
     of 72 bytes that begins with the parent's hash, and quantities;
  3. at a gateway, where a source stands is told by how many tasks it has pushed.

What is assumed: nothing of the digest, which may be any function from byte strings to hashes.
-/

namespace MinerGateway

namespace Devnet

/-- The seal hash of block `n`. Block 0 has the zero hash. -/
def sealHashAt (digest : Digest) : (n : Nat) → Hash
  | 0 => Hash.zero
  | n + 1 => digest ((sealHashAt digest n).toList ++ BigEndian.bytes 8 (n + 1))

/-- A reader finds this value in the text at an index. -/
def Reads {α : Type} (package : WorkPackage) (index : Nat)
    (read : String → Except HexError α) (value : α) : Prop :=
  ∃ text, package.field? index = some text ∧ read text = .ok value

/-- What there is to read in the task of block `n` on top of `parent`. -/
structure Decodes (digest : Digest) (parent : Hash) (n : UInt64) (task : Task) : Prop where
  number : task.number = n
  sealHash : task.sealHash = digest (parent.toList ++ BigEndian.bytes 8 n.toNat)
  powHash : Reads task.package 0 Hash.parse task.sealHash
  seedHash : Reads task.package 1 Hash.parse (seed digest n)
  target : ∃ boundary, Reads task.package 2 Hash.parse boundary
  numberText : Reads task.package 3 Hex.decodeQuantity n
  parentHash : Reads task.package 4 Hash.parse parent
  quantities : ∀ index, 5 ≤ index → index ≤ 8 → ∃ value,
      Reads task.package index Hex.decodeQuantity value
  header : ∃ bytes, Reads task.package 9 Hex.decode bytes ∧ bytes.length = 72 ∧
    bytes = parent.toList ++ BigEndian.bytes 8 n.toNat ++ (seed digest n).toList

theorem parse_target : Hash.parse target = .ok (FixedBytes.ofNat 32 (2 ^ 256 / 2 ^ 32)) := by
  decide +kernel

namespace Chain

/-! ## One task -/

theorem length_header (digest : Digest) (chain : Chain) : (chain.header digest).length = 72 := by
  simp [header, numberBytes, FixedBytes.length_toList]

/-- **A task decodes to the number and the hash on which it was built.** -/
theorem decodes_task (digest : Digest) (chain : Chain) :
    Decodes digest chain.parent chain.next (chain.task digest) where
  number := rfl
  sealHash := rfl
  powHash := ⟨_, rfl, FixedBytes.parse_text _⟩
  seedHash := ⟨_, rfl, FixedBytes.parse_text _⟩
  target := ⟨_, _, rfl, parse_target⟩
  numberText := ⟨_, rfl, Hex.decodeQuantity_encodeQuantity _⟩
  parentHash := ⟨_, rfl, FixedBytes.parse_text _⟩
  quantities := by
    intro index low high
    obtain rfl | rfl | rfl | rfl : index = 5 ∨ index = 6 ∨ index = 7 ∨ index = 8 := by omega
    · exact ⟨gasLimit, _, rfl, Hex.decodeQuantity_encodeQuantity _⟩
    all_goals exact ⟨0, _, rfl, Hex.decodeQuantity_encodeQuantity _⟩
  header := ⟨chain.header digest, ⟨_, rfl, Hex.decode_encode _⟩, length_header digest chain, rfl⟩

/-! ## One after another -/

theorem skip_succ (digest : Digest) (count : Nat) (chain : Chain) :
    skip digest (count + 1) chain = (skip digest count chain).advance digest := by
  induction count generalizing chain with
  | zero => rfl
  | succ count ih => exact ih (chain.advance digest)

theorem tasks_succ (digest : Digest) (count : Nat) (chain : Chain) :
    tasks digest (count + 1) chain
      = tasks digest count chain ++ [(skip digest count chain).task digest] := by
  induction count generalizing chain with
  | zero => rfl
  | succ count ih => exact congrArg (chain.task digest :: ·) (ih (chain.advance digest))

theorem sealHash_sealHashAt (digest : Digest) {n : Nat} (small : n + 1 < UInt64.size) :
    sealHash digest ⟨UInt64.ofNat (n + 1), sealHashAt digest n⟩ = sealHashAt digest (n + 1) := by
  have number : (UInt64.ofNat (n + 1)).toNat = n + 1 := UInt64.toNat_ofNat_of_lt' small
  simp only [sealHash, numberBytes, number, sealHashAt]

/-- **Where a fresh source stands after `n` tasks.** -/
theorem skip_start (digest : Digest) {n : Nat} (small : n < UInt64.size) :
    skip digest n start = ⟨UInt64.ofNat (n + 1), sealHashAt digest n⟩ := by
  induction n with
  | zero => rfl
  | succ n ih =>
    rw [skip_succ, ih (by omega), advance, sealHash_sealHashAt digest small]
    exact congrArg (Chain.mk · _) (UInt64.ofNat_add (n + 1) 1).symm

/-- **The `n`-th task of a fresh source decodes to `n` and the seal hash before it.** -/
theorem exists_task (digest : Digest) {n count : Nat} (positive : 1 ≤ n) (bounded : n ≤ count)
    (small : n < UInt64.size) :
    ∃ task, (tasks digest count start)[n - 1]? = some task ∧
      Decodes digest (sealHashAt digest (n - 1)) (UInt64.ofNat n) task ∧
      task.sealHash = sealHashAt digest n := by
  obtain ⟨n, rfl⟩ := Nat.exists_eq_add_of_le' positive
  have inside : n < (tasks digest count start).length := by
    rw [length_tasks]
    exact bounded
  have found := List.getElem?_eq_getElem inside
  have here : (tasks digest count start)[n]
      = task digest ⟨UInt64.ofNat (n + 1), sealHashAt digest n⟩ := by
    rw [eq_skip_of_tasks found, skip_start digest (by omega)]
  rw [here] at found
  exact ⟨_, found, decodes_task digest ⟨_, _⟩, sealHash_sealHashAt digest small⟩

end Chain

end Devnet

theorem Advances.eq_start {w : World} {errand : Errand}
    {stage : Stage} {chain : Devnet.Chain} {due : Bool}
    (h : Advances w errand stage (.producing chain due)) : chain = .start := by
  cases h
  rfl

namespace World

variable {w w' : World} {e : Event} {i : Nat} {errand : Errand} {chain : Devnet.Chain} {due : Bool}

/-! ## Where the sources of a gateway stand -/

/-- A source of synthetic work was put where it stands, or stood there. -/
theorem producing_of_setStage {j : Nat} {stage : Stage}
    (after : (w.setStage j stage).view i = some (errand, .producing chain due)) :
    (stage = .producing chain due ∧ ∃ before, j = i ∧ w.view j = some (errand, before)) ∨
      w.view i = some (errand, .producing chain due) := by
  rw [view_setStage] at after
  split at after
  · next here =>
    obtain ⟨⟨_, before⟩, stood, same⟩ := Option.map_eq_some_iff.mp after
    obtain ⟨rfl, placed⟩ := Prod.mk.inj same
    exact .inl ⟨placed, before, here, here ▸ stood⟩
  · exact .inr after

theorem producing_of_deliver {j : Nat} {reply : Reply}
    (after : (w.deliver j reply).view i = some (errand, .producing chain due)) :
    w.view i = some (errand, .producing chain due) := by
  rw [view_deliver] at after
  split at after
  · exact view_of_receive after nofun
  · exact after

theorem producing_of_lose {letters : List Letter}
    (after : (w.lose letters).view i = some (errand, .producing chain due)) :
    w.view i = some (errand, .producing chain due) := by
  rw [view_lose] at after
  split at after
  · exact view_of_receive after nofun
  · exact after

/-- **A source of synthetic work stands where it stood before**, or it begins, or it has just pushed
its next task. -/
theorem producing_of_step (step : Step w e w')
    (after : w'.view i = some (errand, .producing chain due)) :
    (∃ due', w.view i = some (errand, .producing chain due')) ∨ chain = .start ∨
      ∃ before due', w.view i = some (errand, .producing before due') ∧
      e = .pushed (before.task Sha256.digest) ∧
        chain = before.advance Sha256.digest := by
  rcases step with move | act
  · cases move with
    | advance found advances =>
      rcases producing_of_setStage after with ⟨rfl, -⟩ | before
      · exact .inr (.inl advances.eq_start)
      · exact .inl ⟨due, before⟩
    | enter =>
      rcases producing_of_setStage after with ⟨sent, -⟩ | before
      · cases sent
      · exact .inl ⟨due, before⟩
    | produce found stage _ pushed =>
      rcases producing_of_setStage after with ⟨advanced, old, rfl, there⟩ | before
      · cases advanced
        have stood := (view_pushTask pushed _).symm.trans there
        rw [view_eq_some found, stage] at stood
        cases stood
        exact .inr (.inr ⟨_, true, stage ▸ view_eq_some found, rfl, rfl⟩)
      · exact .inl ⟨due, (view_pushTask pushed i).symm.trans before⟩
    | quit =>
      have before := producing_of_lose after
      exact .inl ⟨due, before⟩
    | serve =>
      have before := producing_of_deliver after
      exact .inl ⟨due, before⟩
    | handle | clean | release => exact .inl ⟨due, after⟩
  · cases act with
    | make =>
      rw [view_makeCall] at after
      split at after
      · cases after
      · exact .inl ⟨due, after⟩
    | @post intake message =>
      rcases producing_of_setStage after with ⟨sent, -⟩ | made
      · cases sent
      · have before : (w.makeCall .letter).2.view i = _ := made
        rw [view_makeCall] at before
        split at before
        · cases before
        · exact .inl ⟨due, before⟩
    | abort =>
      rcases producing_of_setStage after with ⟨finished, -⟩ | before
      · cases finished
      · exact .inl ⟨due, before⟩
    | push pushed => exact .inl ⟨due, (view_pushTask pushed i).symm.trans after⟩
    | resolve =>
      have before := producing_of_deliver after
      exact .inl ⟨due, before⟩
    | drop =>
      have before := producing_of_lose after
      exact .inl ⟨due, before⟩
    | @ring _ timer timers =>
      rcases view_fire { w with now := timer.due, timers } timer.owner i
        with same | ⟨_, _, due', before, rung⟩
      · exact .inl ⟨due, same.symm.trans after⟩
      · cases rung.symm.trans after
        exact .inl ⟨due', before⟩
    | report => exact .inl ⟨due, (view_markReported w i).symm.trans after⟩
    | signal | receive | abandon | join | setHashrate | take | read | detach | pass =>
      exact .inl ⟨due, after⟩

/-- **Where a source stands is told by how many tasks it has pushed**, all of them in order. -/
theorem produced_run {settings : EngineSettings} {verifier : Verifier} {log : List Event}
    (run : (started settings verifier).Run log w)
    (stands : w.view i = some (errand, .producing chain due)) :
    ∃ count, chain = Devnet.Chain.skip Sha256.digest count .start ∧
      (Devnet.Chain.tasks Sha256.digest count .start).Sublist (pushedTasks log) := by
  induction run generalizing chain due with
  | refl => cases stands
  | next run step ih =>
    rw [pushedTasks_append]
    rcases producing_of_step step stands with ⟨due', before⟩ | rfl | ⟨before, due', stood, rfl, rfl⟩
    · obtain ⟨count, same, pushed⟩ := ih before
      exact ⟨count, same, pushed.trans (List.sublist_append_left ..)⟩
    · exact ⟨0, rfl, List.nil_sublist _⟩
    · obtain ⟨count, rfl, pushed⟩ := ih stood
      refine ⟨count + 1, (Devnet.Chain.skip_succ ..).symm, ?_⟩
      rw [Devnet.Chain.tasks_succ]
      exact pushed.append (List.Sublist.refl _)

end World

/-- **Synthetic work decodes to a chain of hashes**, whatever the digest. The `n`-th task of a fresh
source has the number `n` and the `n`-th seal hash, which is the digest of the one before and `n`;
the texts of its package are read back as these, as the seed, as quantities and as a header of 72
bytes; and the source then stands at the next number on top of this hash. At a gateway, where a
source stands is told by how many tasks it has pushed, whatever the interval and whatever else
happens. -/
theorem synthetic_work_decodes :
    (∀ (digest : Devnet.Digest) n, 1 ≤ n → n < 2 ^ 64 - 1 →
      (∀ count, n ≤ count → ∃ task, (Devnet.Chain.tasks digest count .start)[n - 1]? = some task ∧
        Devnet.Decodes digest (Devnet.sealHashAt digest (n - 1)) (UInt64.ofNat n) task ∧
          task.sealHash = Devnet.sealHashAt digest n) ∧
      Devnet.Chain.skip digest n .start = ⟨UInt64.ofNat (n + 1), Devnet.sealHashAt digest n⟩) ∧
    ∀ settings verifier log w i interval chain due, (World.started settings verifier).Run log w →
      w.view i = some (.devnet interval, .producing chain due) →
      ∃ count, chain = Devnet.Chain.skip Sha256.digest count .start ∧
        (Devnet.Chain.tasks Sha256.digest count .start).Sublist (pushedTasks log) := by
  refine ⟨?_, fun _ _ _ _ _ _ _ _ run stands => World.produced_run run stands⟩
  intro digest n positive small
  have fits : n < UInt64.size := by
    change n < 2 ^ 64
    omega
  exact ⟨fun count bounded => Devnet.Chain.exists_task digest positive bounded fits,
    Devnet.Chain.skip_start digest fits⟩

/-- The second task names the first as its parent, and a source with some interval has pushed the
first. -/
theorem synthetic_work_decodes_second :
    ∃ first second, Devnet.Chain.tasks Sha256.digest 2 .start = [first, second] ∧
      second.sealHash = Sha256.digest (first.sealHash.toList ++ [0, 0, 0, 0, 0, 0, 0, 2]) ∧
      Devnet.Reads second.package 4 Hash.parse first.sealHash ∧
      Devnet.Reads second.package 3 Hex.decodeQuantity 2 ∧
      ∃ log w chain, (World.started {} .acceptAll).Run log w ∧ pushedTasks log = [first] ∧
        w.view 0 = some (.devnet 7, .producing chain false) ∧
        ∃ count, chain = Devnet.Chain.skip Sha256.digest count .start ∧
          (Devnet.Chain.tasks Sha256.digest count .start).Sublist [first] := by
  obtain ⟨decodes, stands⟩ := synthetic_work_decodes
  obtain ⟨second, found, decoded, -⟩ :=
    (decodes Sha256.digest 2 (by decide) (by decide)).1 2 (by decide)
  obtain rfl := Option.some.inj found
  have start : (World.started {} .acceptAll).Run [] _ := .refl
  have made := start.next (.act (show Act _ (.made 0 (.devnet 7)) _ from .make nofun))
  have begun := made.next (.move (.advance (i := 0) rfl (.source (show 7 ≠ 0 by decide))))
  have pushed := begun.next (.move (.produce (i := 0) rfl rfl rfl rfl))
  refine ⟨_, _, rfl, decoded.sealHash, decoded.parentHash, decoded.numberText, _, _,
    Devnet.Chain.start.advance Sha256.digest, pushed, rfl, rfl, ?_⟩
  exact stands _ _ _ _ 0 7 _ false pushed rfl

end MinerGateway
