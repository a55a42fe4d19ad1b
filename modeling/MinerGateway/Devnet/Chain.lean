import MinerGateway.Bytes.Sha256
import MinerGateway.Hex.Quantity
import MinerGateway.Sealing.Task

/-!
Synthetic work for development networks.

Each task seals a block on top of the one before: its seal hash is the digest of the previous seal
hash and its own number, so the sequence is the same on every run. The digest is a parameter;
`Sha256.digest` is the one in use.

Correspondence (source of work ↔ definition):
  where a source stands                         ↔ `Chain`
  the next task, with the package that is mined ↔ `Chain.task`
  moving on by one task, by several             ↔ `Chain.advance`, `Chain.skip`
  the seed of an epoch, the fixed boundary      ↔ `seed`, `target`

The number is a word of 64 bits and wraps behind the largest one; statements about the chain are for
the numbers before that.
-/

namespace MinerGateway.Devnet

/-- A function from byte strings to hashes. -/
abbrev Digest := List UInt8 → Hash

/-- Blocks that share one seed. -/
def epochLength : UInt64 := 30000

/-- The fixed boundary, `2 ^ 256 / 2 ^ 32`. -/
def target : String := "0x0000000100000000000000000000000000000000000000000000000000000000"

def gasLimit : UInt64 := 30000000

/-- What the digest of a seed begins with. -/
def seedLabel : List UInt8 := "sealgate-devnet-seed".toList.flatMap String.utf8EncodeChar

def numberBytes (number : UInt64) : List UInt8 := BigEndian.bytes 8 number.toNat

/-- The seed of the epoch that holds block `number`. -/
def seed (digest : Digest) (number : UInt64) : Hash :=
  digest (seedLabel ++ numberBytes (number / epochLength))

/-- Where the next task attaches: its number and the seal hash before it. -/
structure Chain where
  next : UInt64
  parent : Hash
  deriving DecidableEq, Repr

namespace Chain

/-- Block 1 on top of the zero hash. -/
def start : Chain := ⟨1, Hash.zero⟩

/-- The encoded header: parent, number and seed. -/
def header (digest : Digest) (chain : Chain) : List UInt8 :=
  chain.parent.toList ++ numberBytes chain.next ++ (seed digest chain.next).toList

def sealHash (digest : Digest) (chain : Chain) : Hash :=
  digest (chain.parent.toList ++ numberBytes chain.next)

def task (digest : Digest) (chain : Chain) : Task where
  sealHash := chain.sealHash digest
  number := chain.next
  package :=
    { powHash := (chain.sealHash digest).text
      seedHash := (seed digest chain.next).text
      target := target
      number := Hex.encodeQuantity chain.next
      parentHash := chain.parent.text
      gasLimit := Hex.encodeQuantity gasLimit
      gasUsed := Hex.encodeQuantity 0
      transactionCount := Hex.encodeQuantity 0
      uncleCount := Hex.encodeQuantity 0
      header := Hex.encode (chain.header digest)
      profit := "0" }

/-- The chain once the next task was taken. -/
def advance (digest : Digest) (chain : Chain) : Chain :=
  ⟨chain.next + 1, chain.sealHash digest⟩

def skip (digest : Digest) : (count : Nat) → Chain → Chain
  | 0, chain => chain
  | count + 1, chain => skip digest count (chain.advance digest)

def tasks (digest : Digest) : (count : Nat) → Chain → List Task
  | 0, _ => []
  | count + 1, chain => chain.task digest :: tasks digest count (chain.advance digest)

end Chain

end MinerGateway.Devnet
